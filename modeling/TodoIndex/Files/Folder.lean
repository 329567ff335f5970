import TodoIndex.Text.Utf8
import TodoIndex.Files.Path

/-!
# Folders

The contents of a directory as a value.  The entries of a folder stand in the order of
the bytes of their names, and `insert` keeps them so; a place below a folder is the list of
names that lead to it.
-/

namespace TodoIndex

open Text (Bytes)

/-- The entries of a directory, each with its name. -/
inductive Folder where
  | empty
  | file (name content : Bytes) (executable : Bool) (rest : Folder)
  | link (name target : Bytes) (rest : Folder)
  | folder (name : Bytes) (inside rest : Folder)
  deriving DecidableEq, Inhabited

/-- What a name in a folder stands for. -/
inductive Entry where
  | file (content : Bytes) (executable : Bool)
  | link (target : Bytes)
  | folder (inside : Folder)
  deriving DecidableEq, Inhabited

/-- The three kinds of entries. -/
inductive EntryKind where
  | file
  | link
  | folder
  deriving DecidableEq, Repr, Inhabited

namespace Entry

def kind : Entry -> EntryKind
  | .file .. => .file
  | .link _ => .link
  | .folder _ => .folder

end Entry

namespace Folder

/-- Put an entry before the others. -/
def cons (name : Bytes) (entry : Entry) (rest : Folder) : Folder :=
  match entry with
  | .file content executable => .file name content executable rest
  | .link target => .link name target rest
  | .folder inside => .folder name inside rest

/-- The entries with their names, in order. -/
def toList : Folder -> List (Bytes × Entry)
  | .empty => []
  | .file name content executable rest => (name, .file content executable) :: rest.toList
  | .link name target rest => (name, .link target) :: rest.toList
  | .folder name inside rest => (name, .folder inside) :: rest.toList

def ofList (entries : List (Bytes × Entry)) : Folder :=
  entries.foldr (fun (name, entry) rest => cons name entry rest) .empty

@[simp] theorem toList_cons (name : Bytes) (entry : Entry) (rest : Folder) :
    (cons name entry rest).toList = (name, entry) :: rest.toList := by
  cases entry <;> rfl

@[simp] theorem toList_ofList (entries : List (Bytes × Entry)) :
    (ofList entries).toList = entries := by
  induction entries with
  | nil => rfl
  | cons e entries ih => simpa [ofList] using ih

def names (f : Folder) : List Bytes :=
  f.toList.map Prod.fst

def get? (f : Folder) (name : Bytes) : Option Entry :=
  f.toList.lookup name

/-- Insert an entry into a list that is ordered by names; an entry of that name is replaced. -/
def insertEntry (name : Bytes) (entry : Entry) : List (Bytes × Entry) -> List (Bytes × Entry)
  | [] => [(name, entry)]
  | (other, old) :: rest =>
      match Path.compareBytes name other with
      | .lt => (name, entry) :: (other, old) :: rest
      | .eq => (name, entry) :: rest
      | .gt => (other, old) :: insertEntry name entry rest

def insert (f : Folder) (name : Bytes) (entry : Entry) : Folder :=
  ofList (insertEntry name entry f.toList)

/-- The same entries in the order of their names, here and in all directories below. -/
def arranged : Folder -> Folder
  | .empty => .empty
  | .file name content executable rest => rest.arranged.insert name (.file content executable)
  | .link name target rest => rest.arranged.insert name (.link target)
  | .folder name inside rest => rest.arranged.insert name (.folder inside.arranged)

/-- Take the entry with a name away. -/
def erase (f : Folder) (name : Bytes) : Folder :=
  ofList (f.toList.filter fun e => !decide (e.1 = name))

/-- The entry at a place below the folder; the folder itself is at the empty place. -/
def at? (f : Folder) : List Bytes -> Option Entry
  | [] => some (.folder f)
  | name :: place =>
      match f.get? name with
      | some (.folder inside) => inside.at? place
      | some entry => if place = [] then some entry else none
      | none => none

def folderAt? (f : Folder) (place : List Bytes) : Option Folder :=
  match f.at? place with
  | some (.folder inside) => some inside
  | _ => none

/-- Change the folder at a place; nothing happens if there is none. -/
def modifyAt (change : Folder -> Folder) (f : Folder) : List Bytes -> Folder
  | [] => change f
  | name :: place =>
      match f.get? name with
      | some (.folder inside) => f.insert name (.folder (inside.modifyAt change place))
      | _ => f

/-- All names in a folder and below it, and all pieces of the targets of its links. -/
def words : Folder -> List Bytes
  | .empty => []
  | .file name _ _ rest => name :: rest.words
  | .link name target rest => name :: Path.pieces target ++ rest.words
  | .folder name inside rest => name :: inside.words ++ rest.words

end Folder

end TodoIndex
