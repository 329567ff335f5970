import TodoIndex.Files.Disk
import TodoIndex.Note
import TodoIndex.Store.Document

/-!
# Loading and saving the store

A store is saved to a new file beside the document, which then replaces the document in one
step.  A save is described by all states of the disk that it passes, under an obstacle that
can make any of its stages fail; so it can be said what is there when it is cut off.
-/

namespace TodoIndex

/-- Why a store could not be loaded or saved. -/
inductive StoreError where
  | io (path : Path) (cause : OsError)
  | malformed (path : Path)
  | notReplaced (path : Path) (cause : OsError)
  deriving DecidableEq, Inhabited

namespace StoreError

def message : StoreError -> String
  | .io path e => s!"IO error on {path}: {e}"
  | .malformed path => s!"Store document {path} is malformed: it is not the document of a store"
  | .notReplaced path e => s!"Failed to replace {path}: {e}"

/-- The failure of the system behind the error. -/
def cause? : StoreError -> Option OsError
  | .io _ e => some e
  | .malformed _ => none
  | .notReplaced _ e => some e

instance : ToString StoreError where
  toString := message

end StoreError

namespace Store

/-- The store in the document at a path; where there is no document the store is empty. -/
def load (disk : Disk) (path : Path) : Except StoreError Store :=
  match disk.contents path with
  | .ok bytes =>
      match ofDocument? bytes with
      | some store => .ok store
      | none => .error (.malformed path)
  | .error .notFound => .ok empty
  | .error e => .error (.io path e)

def loadNotes (disk : Disk) (path : Path) : List Note :=
  match disk.contents path with
  | .error .notFound => [⟨.debug, .store, s!"absent: {path}"⟩]
  | _ => []

/-- The stages of a save. -/
inductive Stage where
  | makeFolder
  | makeTemporary
  | write
  | sync
  | replace
  deriving DecidableEq, Repr

/-- The world around a save: the stages that fail although the disk would allow them, how many
directories are tried before their making fails, how many bytes a write brings out before its
end, and the number from which on the temporary file looks for its name. -/
structure Obstacle where
  fails : Stage -> Option OsError
  made : Nat
  written : Nat
  drawn : Nat

def Obstacle.none : Obstacle :=
  ⟨fun _ => .none, 0, 0, 0⟩

/-- A save: the states of the disk from the first to the last, and how it ended. -/
structure Saving where
  passed : List Disk
  outcome : Except StoreError Unit

namespace Saving

/-- The disk at the end of a save that began with `disk`. -/
def disk (s : Saving) (first : Disk) : Disk :=
  s.passed.getLast?.getD first

/-- Put an earlier state before the others. -/
def behind (first : Disk) (s : Saving) : Saving :=
  { s with passed := first :: s.passed }

/-- Put earlier states before the others. -/
def after (earlier : List Disk) (s : Saving) : Saving :=
  { s with passed := earlier ++ s.passed }

end Saving

def folderOf (path : Path) : Path :=
  match path.parent? with
  | some folder => if folder.isEmpty then Path.ofString "." else folder
  | none => Path.ofString "."

/-- The names of the files that a document is written to before it is in place. -/
def temporaryName (n : Nat) : Text.Bytes :=
  Text.bytesOf ".todowatch-" ++ Text.Utf8.encode (Nat.toDigits 10 n) ++ Text.bytesOf ".tmp"

def unusedName (taken : List Text.Bytes) (drawn : Nat) : Text.Bytes :=
  match (List.range taken.length).find? fun n => !taken.contains (temporaryName (drawn + n)) with
  | some n => temporaryName (drawn + n)
  | none => temporaryName (drawn + taken.length)

/-- The temporary file in the directory of a document.  Its name is drawn by lot, so it is one
that is written down nowhere: neither on the disk nor in the path of the document. -/
def temporaryIn (obstacle : Obstacle) (disk : Disk) (folder path : Path) : Path :=
  folder.child <| unusedName
    (disk.words ++ Path.pieces folder.bytes ++ Path.pieces path.bytes) obstacle.drawn

/-- Do one step of a save on a disk unless the obstacle forbids it. -/
def attempt (obstacle : Obstacle) (stage : Stage) (disk : Disk)
    (step : Disk -> Except OsError Unit × Disk) : Except OsError Unit × Disk :=
  match obstacle.fails stage with
  | some e => (.error e, disk)
  | none => step disk

/-- Leave the temporary file behind no more and report an error. -/
def giveUp (temporary : Path) (e : StoreError) (disk : Disk) : Saving :=
  ⟨[disk, (disk.remove temporary).2], .error e⟩

/-- Put the written and synced temporary file in the place of the document. -/
def replaceBy (obstacle : Obstacle) (temporary path : Path) (disk : Disk) : Saving :=
  match attempt obstacle .replace disk (·.move temporary path) with
  | (.ok (), last) => ⟨[disk, last], .ok ()⟩
  | (.error e, last) => (giveUp temporary (.notReplaced path e) last).behind disk

/-- Write the temporary file, first a part of it and then all. -/
def writeTo (obstacle : Obstacle) (folder temporary path : Path) (bytes : Text.Bytes)
    (disk : Disk) : Saving :=
  let begun := (disk.writeFile temporary (bytes.take obstacle.written)).2
  match attempt obstacle .write begun (·.writeFile temporary bytes) with
  | (.error e, last) => ((giveUp temporary (.io folder e) last).behind begun).behind disk
  | (.ok (), full) =>
      match obstacle.fails .sync with
      | some e => ((giveUp temporary (.io folder e) full).behind begun).behind disk
      | none => ((replaceBy obstacle temporary path full).behind begun).behind disk

/-- Write the document to a temporary file in its directory, which is there, and replace it. -/
def savingIn (obstacle : Obstacle) (s : Store) (folder path : Path) (ready : Disk) : Saving :=
  let temporary := temporaryIn obstacle ready folder path
  match attempt obstacle .makeTemporary ready (·.writeFile temporary []) with
  | (.error e, last) => ⟨[ready, last], .error (.io folder e)⟩
  | (.ok (), opened) =>
      (writeTo obstacle folder temporary path s.document opened).behind ready

def savingUnder (obstacle : Obstacle) (s : Store) (disk : Disk) (path : Path) : Saving :=
  let folder := folderOf path
  let made := disk.foldersPassed folder
  match obstacle.fails .makeFolder with
  | some e => ⟨disk :: made.take obstacle.made, .error (.io folder e)⟩
  | none =>
      match disk.createFolders folder with
      | (.error e, last) => ⟨disk :: made ++ [last], .error (.io folder e)⟩
      | (.ok (), ready) => (savingIn obstacle s folder path ready).after (disk :: made)

/-- Save a store under an obstacle; what comes of it in the end. -/
def saveUnder (obstacle : Obstacle) (s : Store) (disk : Disk) (path : Path) :
    Except StoreError Unit × Disk :=
  let saving := s.savingUnder obstacle disk path
  (saving.outcome, saving.disk disk)

def save (s : Store) (disk : Disk) (path : Path) : Except StoreError Unit × Disk :=
  s.saveUnder .none disk path

def saveNotes (s : Store) (path : Path) : List Note :=
  [⟨.debug, .store, s!"saved: {s.projects.entries.length} projects to {path}"⟩]

end Store

end TodoIndex
