import TodoIndex.Toml.Value

/-!
# Growing tables

A document writes its tables bit by bit, and not every bit may be added to every table.  A
table that a header names is named once; a table that dotted keys begin is only extended by
dotted keys; a table that is written out as a value is never extended.
-/

namespace TodoIndex

namespace Toml

/-- What a table came from. -/
inductive Origin where
  | header
  /-- A header names a table within it. -/
  | above
  /-- A dotted key goes through it. -/
  | dotted
  deriving DecidableEq, Repr

/-- What stands under a key while the document is read. -/
inductive Node where
  | value (v : Toml)
  | table (origin : Origin) (entries : List (String × Node))
  /-- The tables of an array, the last one first. -/
  | tables (items : List (List (String × Node)))

namespace Node

mutual

def toToml : Node -> Toml
  | .value v => v
  | .table _ entries => .table (entriesToToml entries)
  | .tables items => .array (itemsToToml items).reverse

def entriesToToml : List (String × Node) -> List (String × Toml)
  | [] => []
  | (key, node) :: entries => (key, node.toToml) :: entriesToToml entries

def itemsToToml : List (List (String × Node)) -> List Toml
  | [] => []
  | entries :: items => .table (entriesToToml entries) :: itemsToToml items

end

end Node

/-- The entries of a table that grows. -/
abbrev Nodes := List (String × Node)

namespace Nodes

def set (key : String) (node : Node) : Nodes -> Nodes
  | [] => [(key, node)]
  | (other, old) :: rest =>
      if other = key then (key, node) :: rest else (other, old) :: set key node rest

/-- Change the table at the end of a path; tables that are missing on the way begin to be.
`change` is told where the table came from. -/
def changeAt (byKey : Bool) (change : Origin -> Nodes -> Option Nodes) :
    (path : List String) -> Origin -> Nodes -> Option Nodes
  | [], origin, nodes => change origin nodes
  | key :: path, _, nodes =>
      match nodes.lookup key with
      | none =>
          let origin := if byKey then Origin.dotted else .above
          (changeAt byKey change path origin []).map fun inner =>
            nodes ++ [(key, .table origin inner)]
      | some (.value _) => none
      | some (.table origin inner) =>
          if byKey && origin = .header then none
          else
            (changeAt byKey change path origin inner).map fun inner =>
              set key (.table origin inner) nodes
      | some (.tables []) => none
      | some (.tables (last :: before)) =>
          (changeAt byKey change path .header last).map fun last =>
            set key (.tables (last :: before)) nodes

def addHere (throughKeys : Bool) (key : String) (value : Toml) (origin : Origin) (nodes : Nodes) :
    Option Nodes :=
  if throughKeys && origin != .dotted then none
  else if (nodes.lookup key).isSome then none
  else some (nodes ++ [(key, .value value)])

/-- Add a value under a dotted key. -/
def add (path : List String) (value : Toml) (nodes : Nodes) : Option Nodes :=
  match path.getLast? with
  | none => none
  | some key =>
      let lead := path.dropLast
      changeAt true (addHere (!lead.isEmpty) key value) lead .header nodes

/-- Let a header name a table in another one. -/
def nameTable (key : String) (nodes : Nodes) : Option Nodes :=
  match nodes.lookup key with
  | none => some (nodes ++ [(key, .table .header [])])
  | some (.table .above inner) => some (set key (.table .header inner) nodes)
  | some _ => none

/-- Let a header begin the next table of an array. -/
def nextTable (key : String) (nodes : Nodes) : Option Nodes :=
  match nodes.lookup key with
  | none => some (nodes ++ [(key, .tables [[]])])
  | some (.tables items) => some (set key (.tables ([] :: items)) nodes)
  | some _ => none

/-- Read a header: it names a table or begins the next one of an array. -/
def open? (isArray : Bool) (path : List String) (nodes : Nodes) : Option Nodes :=
  match path.getLast? with
  | none => none
  | some key =>
      let change := if isArray then nextTable key else nameTable key
      changeAt false (fun _ => change) path.dropLast .header nodes

/-- Add a value under a dotted key to the table that the last header named. -/
def addUnder (header path : List String) (value : Toml) (nodes : Nodes) : Option Nodes :=
  changeAt false (fun _ => add path value) header .header nodes

end Nodes

end Toml

end TodoIndex
