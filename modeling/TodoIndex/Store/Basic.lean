import TodoIndex.OrderedMap
import TodoIndex.Remark

/-!
# The store

The store keeps, for every project that was scanned, the list of its remarks.  Projects stand
in the order in which they were first stored.
-/

namespace TodoIndex

/-- The remarks of all projects. -/
structure Store where
  projects : OrderedMap (List Remark)
  deriving Inhabited

namespace Store

def empty : Store :=
  ⟨.empty⟩

def project? (s : Store) (name : String) : Option (List Remark) :=
  s.projects.get? name

def contains (s : Store) (name : String) : Bool :=
  s.projects.contains name

def names (s : Store) : List String :=
  s.projects.names

/-- How many remarks there are in all projects. -/
def count (s : Store) : Nat :=
  s.projects.values.foldl (fun n remarks => n + remarks.length) 0

def isEmpty (s : Store) : Bool :=
  s.projects.isEmpty

/-- Give a project other remarks; also return the previous ones. -/
def replaceProject (s : Store) (name : String) (remarks : List Remark) :
    Option (List Remark) × Store :=
  let (previous, projects) := s.projects.exchange name remarks
  (previous, ⟨projects⟩)

/-- Forget a project; also return its remarks. -/
def removeProject (s : Store) (name : String) : Option (List Remark) × Store :=
  let (previous, projects) := s.projects.take name
  (previous, ⟨projects⟩)

theorem replaceProject_eq (s : Store) (name : String) (remarks : List Remark) :
    s.replaceProject name remarks = (s.project? name, ⟨s.projects.insert name remarks⟩) := by
  rw [replaceProject, OrderedMap.exchange_eq]
  rfl

theorem removeProject_eq (s : Store) (name : String) :
    s.removeProject name = (s.project? name, ⟨s.projects.erase name⟩) := by
  rw [removeProject, OrderedMap.take_eq]
  rfl

/-- Add one remark to a project unless it has one at that place; also say whether it was added. -/
def addSingle (s : Store) (name : String) (remark : Remark) : Bool × Store :=
  let old := (s.project? name).getD []
  if old.any (·.place = remark.place) then (false, s)
  else (true, (s.replaceProject name (old ++ [remark])).2)

end Store

end TodoIndex
