import TodoIndex.Files.Disk
import TodoIndex.Json.Reader
import TodoIndex.Text.Blank

/-!
# Registry documents

The tracked projects and the helper commands are listed in documents that the program only
reads.  A document that is absent or blank says nothing.
-/

namespace TodoIndex

/-- Why a registry could not be read. -/
inductive RegistryError where
  | io (path : Path) (cause : OsError)
  | malformed (path : Path)
  deriving DecidableEq, Inhabited

namespace RegistryError

def message : RegistryError -> String
  | .io path e => s!"Failed to read registry {path}: {e}"
  | .malformed path => s!"Registry {path} is malformed: it is not the document of a registry"

/-- The failure of the system behind the error. -/
def cause? : RegistryError -> Option OsError
  | .io _ e => some e
  | .malformed _ => none

instance : ToString RegistryError where
  toString := message

end RegistryError

namespace Registry

/-- Read a document of one kind; without one there is `default`. -/
def readDocument {α : Type} (read : Json -> Option α) (default : α) (disk : Disk) (path : Path) :
    Except RegistryError α :=
  match disk.readText path with
  | .ok text =>
      if text.all Text.isBlank then .ok default
      else
        match (Json.ofText? text).bind read with
        | some document => .ok document
        | none => .error (.malformed path)
  | .error .notFound => .ok default
  | .error e => .error (.io path e)

end Registry

end TodoIndex
