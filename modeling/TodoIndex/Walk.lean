import TodoIndex.Files.Disk
import TodoIndex.Ignore.Rules
import TodoIndex.Note

/-!
# Walks

A walk visits what is below the root of a project, the entries of a directory in the order
of their names, and does not enter an ignored directory.  Links are not followed, only
the root itself may be one.
-/

namespace TodoIndex

namespace Walk

/-- The entries below `base` that are not ignored, each before what is inside it.  A walk is taken
to read every directory that it meets: neither permissions nor the length of a path keep it out. -/
def visit (filter : Ignore.Filter) (base : Path) : Folder -> List (Path × EntryKind)
  | .empty => []
  | .file name _ _ rest =>
      let path := base.child name
      let here := if filter.ignores path then [] else [(path, .file)]
      here ++ visit filter base rest
  | .link name _ rest =>
      let path := base.child name
      let here := if filter.ignores path then [] else [(path, .link)]
      here ++ visit filter base rest
  | .folder name inside rest =>
      let path := base.child name
      let here := if filter.ignores path then [] else (path, .folder) :: visit filter path inside
      here ++ visit filter base rest

/-- A root of this name stands for the standard input, in which nothing can be met. -/
def standardInput : Path :=
  Path.ofString "-"

/-- What a walk meets from a root on.  A root that is a link to a directory is entered but
stays a link; one that is a link to a file is that file. -/
def entries (filter : Ignore.Filter) (disk : Disk) (root : Path) :
    Except OsError (List (Path × EntryKind)) :=
  if root.same standardInput then .ok []
  else
    match disk.entry false root with
    | .ok (.folder inside) => .ok ((root, .folder) :: visit filter root inside.arranged)
    | .ok (.file ..) => .ok [(root, .file)]
    | .ok (.link _) =>
        match disk.entry true root with
        | .ok (.folder inside) => .ok ((root, .link) :: visit filter root inside.arranged)
        | .ok (.file ..) => .ok [(root, .file)]
        | .ok (.link _) => .ok []
        | .error e => .error e
    | .error e => .error e

/-- What a walk meets; a root that cannot be walked is noted and has nothing in it. -/
def found (filter : Ignore.Filter) (disk : Disk) (root : Path) :
    Noted (List (Path × EntryKind)) :=
  match entries filter disk root with
  | .ok entries => pure entries
  | .error e => do
      Noted.warn .walker <|
        s!"skipping unreadable entry under {root}: " ++
          s!"{root}: IO error for operation on {root}: {e}"
      pure []

def ofKind (kind : EntryKind) (entries : List (Path × EntryKind)) : List Path :=
  (entries.filter (·.2 = kind)).map Prod.fst

def files (filter : Ignore.Filter) (disk : Disk) (root : Path) : Noted (List Path) :=
  ofKind .file <$> found filter disk root

/-- The directories of a project, the root among them. -/
def folders (filter : Ignore.Filter) (disk : Disk) (root : Path) : Noted (List Path) :=
  ofKind .folder <$> found filter disk root

end Walk

end TodoIndex
