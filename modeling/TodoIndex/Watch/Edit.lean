import TodoIndex.Watch.Source
import TodoIndex.Files.Disk

/-!
# Edits and what a source says of them

A source that listens to a directory hears of entries that come, go or are renamed in it, by
the spelling under which the directory was subscribed last, seen from the root.  Entries that
are moved into or out of a directory count as modified there.
-/

namespace TodoIndex

/-- What somebody else does to a disk. -/
inductive Edit where
  | move (source target : Path)
  | remove (path : Path)
  deriving DecidableEq, Inhabited

namespace Edit

def apply (disk : Disk) : Edit -> Except OsError Unit × Disk
  | move source target => disk.move source target
  | remove path => disk.remove path

def leadsTo (disk : Disk) (place : List Text.Bytes) (folder : Path) : Bool :=
  match disk.find true folder with
  | .ok (.found other _) => other == place
  | _ => false

/-- The path by which a source speaks of what is at a path, if it listens to its directory. -/
def heardAs? (disk : Disk) (subscribed : List Path) (path : Path) : Option Path :=
  match disk.find false path with
  | .ok (.found place _) =>
      match place.getLast?, (subscribed.filter (leadsTo disk place.dropLast)).getLast? with
      | some name, some folder => some ((disk.absolute folder).child name)
      | _, _ => none
  | _ => none

/-- What the operating system says of a move, by the names it has for both ends: that something
was modified at either end, and if it has both names also that the two belong together. -/
def moveEvents (source target : Option Path) : List SystemEvent :=
  let ends := (source.toList ++ target.toList).map fun path => ⟨.modify, [path]⟩
  match source, target with
  | some source, some target => ends ++ [⟨.modify, [source, target]⟩]
  | _, _ => ends

def events (subscribed : List Path) (before after : Disk) : Edit -> List SystemEvent
  | move source target =>
      moveEvents (heardAs? before subscribed source) (heardAs? after subscribed target)
  | remove path =>
      ((heardAs? before subscribed path).map fun path => ⟨.remove, [path]⟩).toList

def changes (subscribed : List Path) (before after : Disk) (edit : Edit) : List Change :=
  (edit.events subscribed before after).flatMap SystemEvent.changes

end Edit

end TodoIndex
