import TodoIndex.Files.Disk

/-!
# Differences between disks

What has to be written to make one disk out of another that was read before.
-/

namespace TodoIndex

/-- One thing that is on one disk and not on another. -/
inductive Difference where
  | folder (place : List Text.Bytes)
  | file (place : List Text.Bytes) (content : Text.Bytes)
  | gone (place : List Text.Bytes)
  deriving DecidableEq, Inhabited

namespace Folder

def insideOf : Option Entry -> Folder
  | some (.folder inside) => inside
  | _ => .empty

/-- The directories and files that a folder has and an older one does not have like that. -/
def added (place : List Text.Bytes) (old : Folder) : Folder -> List Difference
  | .empty => []
  | .file name content executable rest =>
      let here :=
        if old.get? name = some (.file content executable) then []
        else [.file (place ++ [name]) content]
      here ++ added place old rest
  | .link _ _ rest => added place old rest
  | .folder name inside rest =>
      let here := match old.get? name with
        | some (.folder _) => []
        | _ => [.folder (place ++ [name])]
      here ++ added (place ++ [name]) (insideOf (old.get? name)) inside ++ added place old rest

/-- The files that an older folder has and a newer one does not have any more. -/
def lost (place : List Text.Bytes) (new : Folder) : Folder -> List Difference
  | .empty => []
  | .file name _ _ rest | .link name _ rest =>
      let here := if (new.get? name).isSome then [] else [.gone (place ++ [name])]
      here ++ lost place new rest
  | .folder name inside rest =>
      lost (place ++ [name]) (insideOf (new.get? name)) inside ++ lost place new rest

end Folder

namespace Disk

/-- What has to be done to a disk so that it becomes like a newer one. -/
def differences (old new : Disk) : List Difference :=
  Folder.added [] old.top new.top ++ Folder.lost [] new.top old.top

end Disk

end TodoIndex
