import TodoIndex.Scan.Report
import TodoIndex.Watch.Source

/-!
# How commands fail

A command that fails says why, and names the causes behind it one after another.
-/

namespace TodoIndex

namespace Commandline

/-- Why a command failed, with the causes behind it, the nearest first. -/
structure Failure where
  message : String
  causes : List String
  deriving DecidableEq, Repr, Inhabited

namespace Failure

def plain (message : String) : Failure :=
  ⟨message, []⟩

def ofScan (e : ScanError) : Failure :=
  ⟨e.message, e.causes⟩

def ofStore (e : StoreError) : Failure :=
  ⟨e.message, (e.cause?.map OsError.message).toList⟩

def ofRegistry (e : RegistryError) : Failure :=
  ⟨e.message, (e.cause?.map OsError.message).toList⟩

def ofWatch (e : WatchError) : Failure :=
  plain e.message

/-- A text whose lines after the first are indented. -/
def indented (blanks : Nat) (s : String) : List Char :=
  List.intercalate ('\n' :: List.replicate blanks ' ') (Text.splitAll '\n' s.toList)

def numbered : (n : Nat) -> List String -> List String
  | _, [] => []
  | n, cause :: rest =>
      let number := (toString n).toList
      let lead := List.replicate (5 - number.length) ' ' ++ number
      String.ofList (lead ++ ": ".toList ++ indented 7 cause) :: numbered (n + 1) rest

/-- The lines that name the causes; a single cause has no number. -/
def causeLines : List String -> List String
  | [] => []
  | [cause] => ["", "Caused by:", String.ofList ("    ".toList ++ indented 4 cause)]
  | causes => "" :: "Caused by:" :: numbered 0 causes

def lines (e : Failure) : List String :=
  ("Error: " ++ e.message) :: causeLines e.causes

end Failure

end Commandline

end TodoIndex
