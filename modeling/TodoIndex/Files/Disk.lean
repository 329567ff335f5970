import TodoIndex.Files.Folder
import TodoIndex.Files.OsError

/-!
# Disks

A disk is the folder at `/` together with the working directory.  Finding a path follows
symbolic links as a POSIX system does; `find` says where a path ends, and every operation is
stated through it.  An operation that fails can have changed the disk before, so operations
that write return the disk in either case.
-/

namespace TodoIndex

open Text (Bytes)

/-- The files of a machine and the place relative paths start from. -/
structure Disk where
  top : Folder
  here : List Bytes
  deriving DecidableEq, Inhabited

/-- Where a path ends. -/
inductive Spot where
  | found (place : List Bytes) (entry : Entry)
  /-- Nothing is there yet, but its folder exists; the path may have ended in a slash. -/
  | free (place : List Bytes) (name : Bytes) (slash : Bool)
  deriving DecidableEq, Inhabited

namespace Disk

/-- How many symbolic links may be followed on the way to one file. -/
def maxLinks : Nat := 40

def maxName : Nat := 255

def maxPath : Nat := 4095

/-- Follow the pieces of a path from a place.  `onLink` goes on with the pieces of a link. -/
def findFrom (top : Folder) (followLast : Bool)
    (onLink : (place pieces : List Bytes) -> Except OsError Spot) :
    (place pieces : List Bytes) -> Except OsError Spot
  | place, [] =>
      match top.folderAt? place with
      | some inside => .ok (.found place (.folder inside))
      | none => .error .notFound
  | place, piece :: rest =>
      if piece = [] || piece = [Path.dot] then findFrom top followLast onLink place rest
      else if piece = [Path.dot, Path.dot] then
        findFrom top followLast onLink place.dropLast rest
      else if piece.length > maxName then .error .nameTooLong
      else
        match (top.folderAt? place).bind (·.get? piece) with
        | some (.folder _) => findFrom top followLast onLink (place ++ [piece]) rest
        | some (.file content executable) =>
            if rest = [] then .ok (.found (place ++ [piece]) (.file content executable))
            else .error .notDirectory
        | some (.link target) =>
            if rest = [] && !followLast then .ok (.found (place ++ [piece]) (.link target))
            else
              onLink (if target.head? = some Path.slash then [] else place)
                (Path.pieces target ++ rest)
        | none =>
            if (top.folderAt? place).isSome && rest.all (·.isEmpty) then
              .ok (.free place piece !rest.isEmpty)
            else .error .notFound

/-- Follow the pieces of a path, over at most so many links. -/
def findWithin (top : Folder) (followLast : Bool) :
    (links : Nat) -> (place pieces : List Bytes) -> Except OsError Spot
  | 0 => findFrom top followLast fun _ _ => .error .tooManyLinks
  | links + 1 => findFrom top followLast (findWithin top followLast links)

/-- Where a path ends; `followLast` says whether a link at its end is followed. -/
def find (d : Disk) (followLast : Bool) (p : Path) : Except OsError Spot :=
  if p.bytes.contains 0 then .error .zeroByte
  else if p.isEmpty then .error .notFound
  else if p.bytes.length > maxPath then .error .nameTooLong
  else
    findWithin d.top followLast maxLinks (if p.isAbsolute then [] else d.here)
      (Path.pieces p.bytes)

def entry (d : Disk) (followLast : Bool) (p : Path) : Except OsError Entry :=
  match d.find followLast p with
  | .ok (.found _ entry) => .ok entry
  | .ok (.free ..) => .error .notFound
  | .error e => .error e

def pathOf (place : List Bytes) : Path :=
  ⟨Path.slash :: List.intercalate [Path.slash] place⟩

def contents (d : Disk) (p : Path) : Except OsError Bytes :=
  match d.entry true p with
  | .ok (.file content _) => .ok content
  | .ok _ => .error .isDirectory
  | .error e => .error e

def readText (d : Disk) (p : Path) : Except OsError (List Char) :=
  match d.contents p with
  | .ok content =>
      match Text.Utf8.decode? content with
      | some text => .ok text
      | none => .error .notText
  | .error e => .error e

def readFolder (d : Disk) (p : Path) : Except OsError Folder :=
  match d.entry true p with
  | .ok (.folder inside) => .ok inside
  | .ok _ => .error .notDirectory
  | .error e => .error e

def isFolder (d : Disk) (p : Path) : Bool :=
  match d.entry true p with
  | .ok (.folder _) => true
  | _ => false

/-- The absolute path without links of what is at a path. -/
def canonical (d : Disk) (p : Path) : Except OsError Path :=
  match d.find true p with
  | .ok (.found place _) => .ok (pathOf place)
  | .ok (.free ..) => .error .notFound
  | .error e => .error e

def absolute (d : Disk) (p : Path) : Path :=
  (pathOf d.here).join p

def change (d : Disk) (place : List Bytes) (f : Folder -> Folder) : Disk :=
  { d with top := d.top.modifyAt f place }

/-- Put an entry at a place; there is none at the root itself. -/
def put (d : Disk) (place : List Bytes) (name : Bytes) (entry : Entry) : Disk :=
  d.change place (·.insert name entry)

def eraseAt (d : Disk) (place : List Bytes) : Disk :=
  match place.getLast? with
  | some name => d.change place.dropLast (·.erase name)
  | none => d

/-- Write a file, following links; a file that is there keeps its permissions. -/
def writeFile (d : Disk) (p : Path) (content : Bytes) : Except OsError Unit × Disk :=
  match d.find true p with
  | .ok (.found place (.file _ executable)) =>
      match place.getLast? with
      | some name => (.ok (), d.put place.dropLast name (.file content executable))
      | none => (.error .isDirectory, d)
  | .ok (.found ..) => (.error .isDirectory, d)
  | .ok (.free place name slash) =>
      if slash then (.error .isDirectory, d)
      else (.ok (), d.put place name (.file content false))
  | .error e => (.error e, d)

def createFolder (d : Disk) (p : Path) : Except OsError Unit × Disk :=
  match d.find false p with
  | .ok (.found ..) => (.error .exists, d)
  | .ok (.free place name _) => (.ok (), d.put place name (.folder .empty))
  | .error e => (.error e, d)

/-- A directory that is there already need not be created. -/
def allowFolder (p : Path) : Except OsError Unit × Disk -> Except OsError Unit × Disk
  | (.ok (), d) => (.ok (), d)
  | (.error e, d) => if d.isFolder p then (.ok (), d) else (.error e, d)

/-- Create a directory and at most so many of the directories above it. -/
def createFoldersWithin : (depth : Nat) -> Disk -> Path -> Except OsError Unit × Disk
  | 0, d, _ => (.error .notFound, d)
  | depth + 1, d, p =>
      if p.isEmpty then (.ok (), d)
      else
        match d.createFolder p with
        | (.error .notFound, d) =>
            match createFoldersWithin depth d (p.parent?.getD ⟨[]⟩) with
            | (.ok (), d) => allowFolder p (d.createFolder p)
            | failed => failed
        | outcome => allowFolder p outcome

/-- Create a directory and all directories above it that are missing. -/
def createFolders (d : Disk) (p : Path) : Except OsError Unit × Disk :=
  createFoldersWithin (p.bytes.length + 1) d p

/-- The states that the disk passes when a directory is created with at most so many of the
directories above it, one for each directory that is tried. -/
def foldersPassedWithin : (depth : Nat) -> Disk -> Path -> List Disk
  | 0, _, _ => []
  | depth + 1, d, p =>
      if p.isEmpty then []
      else
        match d.createFolder p with
        | (.error .notFound, d) =>
            let above := p.parent?.getD ⟨[]⟩
            match createFoldersWithin depth d above with
            | (.ok (), made) => foldersPassedWithin depth d above ++ [(made.createFolder p).2]
            | _ => foldersPassedWithin depth d above
        | (_, made) => [made]

/-- The states that the disk passes while `createFolders` is at work. -/
def foldersPassed (d : Disk) (p : Path) : List Disk :=
  foldersPassedWithin (p.bytes.length + 1) d p

/-- All names that are written down on the disk: those of its entries, those in the targets of
its links, and those that lead to the working directory. -/
def words (d : Disk) : List Bytes :=
  d.top.words ++ d.here

def mayReplace : (moved there : Entry) -> Except OsError Unit
  | .folder _, .folder .empty => .ok ()
  | .folder _, .folder _ => .error .notEmpty
  | .folder _, _ => .error .notDirectory
  | _, .folder _ => .error .isDirectory
  | _, _ => .ok ()

/-- Whether a path ends in a name, and not in a component that says where it is already. -/
def endsInName (p : Path) : Bool :=
  match (Path.pieces p.bytes).reverse.dropWhile (·.isEmpty) with
  | [] => false
  | last :: _ => last != [Path.dot] && last != [Path.dot, Path.dot]

def endsInSlash (p : Path) : Bool :=
  p.bytes.getLast? == some Path.slash

/-- Move an entry from one path that ends in a name to another. -/
def moveFound (d : Disk) (source target : Path) : Except OsError Unit × Disk :=
  match d.find false source, d.find false target with
  | .error e, _ => (.error e, d)
  | .ok (.free ..), _ => (.error .notFound, d)
  | .ok (.found _ _), .error e => (.error e, d)
  | .ok (.found old entry), .ok (.found new there) =>
      if old = new then (.ok (), d)
      else if old.isPrefixOf new then (.error .invalidArgument, d)
      else if endsInSlash target && entry.kind != .folder then (.error .notDirectory, d)
      else
        match mayReplace entry there, new.getLast? with
        | .error e, _ => (.error e, d)
        | .ok (), some name => (.ok (), (d.eraseAt old).put new.dropLast name entry)
        | .ok (), none => (.error .invalidArgument, d)
  | .ok (.found old entry), .ok (.free new name slash) =>
      if old.isPrefixOf new then (.error .invalidArgument, d)
      else if slash && entry.kind != .folder then (.error .notDirectory, d)
      else (.ok (), (d.eraseAt old).put new name entry)

/-- Move an entry, replacing what is at the new place. -/
def move (d : Disk) (source target : Path) : Except OsError Unit × Disk :=
  if source.isEmpty || target.isEmpty then (.error .notFound, d)
  else if endsInName source && endsInName target then d.moveFound source target
  else (.error .busy, d)

/-- Take away the entry at a path, with all that is below it; a link itself is taken away. -/
def remove (d : Disk) (p : Path) : Except OsError Unit × Disk :=
  match d.find false p with
  | .ok (.found place _) => (.ok (), d.eraseAt place)
  | .ok (.free ..) => (.error .notFound, d)
  | .error e => (.error e, d)

def link (d : Disk) (p : Path) (target : Bytes) : Except OsError Unit × Disk :=
  match d.find false p with
  | .ok (.found ..) => (.error .exists, d)
  | .ok (.free place name slash) =>
      if slash then (.error .notFound, d) else (.ok (), d.put place name (.link target))
  | .error e => (.error e, d)

def setExecutable (d : Disk) (p : Path) (executable : Bool) : Except OsError Unit × Disk :=
  match d.find true p with
  | .ok (.found place (.file content _)) =>
      match place.getLast? with
      | some name => (.ok (), d.put place.dropLast name (.file content executable))
      | none => (.ok (), d)
  | .ok (.found ..) => (.ok (), d)
  | .ok (.free ..) => (.error .notFound, d)
  | .error e => (.error e, d)

end Disk

end TodoIndex
