import TodoIndex.Files.Disk
import TodoIndex.Watch.Source

/-!
# Changes seen by looking

Where nobody tells of changes they are found by looking at the subscribed directories again.
-/

namespace TodoIndex

namespace Source

def changeAt? (path : Path) : (before after : Option Entry) -> Option Change
  | none, none => none
  | none, some _ => some ⟨path, .created⟩
  | some _, none => some ⟨path, .removed⟩
  | some (.folder _), some (.folder _) => none
  | some old, some new => if old = new then none else some ⟨path, .modified⟩

/-- The entries of a directory; one that cannot be read has none. -/
def entriesOf (disk : Disk) (folder : Path) : Folder :=
  match disk.readFolder folder with
  | .ok entries => entries
  | .error _ => .empty

def changesIn (before after : Disk) (folder : Path) : List Change :=
  let old := entriesOf before folder
  let new := entriesOf after folder
  let names := old.names ++ new.names.filter fun name => (old.get? name).isNone
  names.filterMap fun name =>
    changeAt? ((after.absolute folder).child name) (old.get? name) (new.get? name)

def poll (s : Source) (before after : Disk) : List Change :=
  s.subscribed.eraseDups.flatMap (changesIn before after)

end Source

end TodoIndex
