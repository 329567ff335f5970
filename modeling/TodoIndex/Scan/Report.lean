import TodoIndex.Registry.Document
import TodoIndex.Store.Saving
import TodoIndex.Text.Quoted

/-!
# What scans say

The report of a scan, the reasons for which one fails, and the events that tell others of it.
-/

namespace TodoIndex

/-- What a scan of a project did. -/
structure Report where
  project : String
  root : Path
  /-- Files that the walk met. -/
  visited : Nat
  parsed : Nat
  /-- Files that could not be read. -/
  failures : Nat
  remarks : Nat
  /-- Remarks that the project had before and has no more. -/
  resolved : Nat
  deriving DecidableEq, Inhabited

/-- Why a scan failed. -/
inductive ScanError where
  | rootUnreadable (path : Path) (cause : OsError)
  | store (cause : StoreError)
  | registry (cause : RegistryError)
  deriving DecidableEq, Inhabited

namespace ScanError

def message : ScanError -> String
  | .rootUnreadable path e => s!"Cannot read project root {path}: {e}"
  | .store e => s!"Store error: {e}"
  | .registry e => s!"Project registry error: {e}"

instance : ToString ScanError where
  toString := message

/-- The messages of the causes behind the error, the nearest first. -/
def causes : ScanError -> List String
  | .rootUnreadable _ e => [e.message]
  | .store e => e.message :: (e.cause?.map OsError.message).toList
  | .registry e => e.message :: (e.cause?.map OsError.message).toList

end ScanError

/-- What happened to the remarks of a project. -/
inductive ScanEvent where
  | completed (project : String) (root : Path) (remarks resolved : Nat)
  | failed (project : String) (root : Path) (reason : String)
  | removed (project : String)
  deriving DecidableEq, Inhabited

namespace ScanEvent

def fields : ScanEvent -> String × List (String × String)
  | .completed project root remarks resolved =>
      ("Completed", [("project", Text.quoted project), ("root", Text.quoted root.display),
        ("annotations", toString remarks), ("resolved", toString resolved)])
  | .failed project root reason =>
      ("Failed", [("project", Text.quoted project), ("root", Text.quoted root.display),
        ("reason", Text.quoted reason)])
  | .removed project => ("ProjectRemoved", [("project", Text.quoted project)])

def details (e : ScanEvent) : String :=
  let (name, fields) := e.fields
  let inside := String.intercalate ", " (fields.map fun (field, value) => s!"{field}: {value}")
  String.ofList (name.toList ++ " \x7b ".toList ++ inside.toList ++ " \x7d".toList)

end ScanEvent

end TodoIndex
