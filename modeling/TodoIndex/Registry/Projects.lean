import TodoIndex.OrderedMap
import TodoIndex.Registry.Document

/-!
# Tracked projects

The registry of the projects that are tracked, each with its root directory, of which one can
be active.
-/

namespace TodoIndex

namespace Registry

/-- The document that lists the tracked projects. -/
structure ProjectsDocument where
  projects : OrderedMap Path
  active : String
  deriving Inhabited

namespace ProjectsDocument

def empty : ProjectsDocument :=
  ⟨.empty, ""⟩

def ofJson? (value : Json) : Option ProjectsDocument := do
  match <- Json.record? ["projects", "active"] value with
  | [projects, active] =>
      let entries <- Json.optional? [] (Json.mapOf? Json.string?) projects
      let active <- Json.optional? "" Json.string? active
      some ⟨(OrderedMap.ofList entries).map Path.ofString, active⟩
  | _ => none

def tracked (d : ProjectsDocument) : List (String × Path) :=
  d.projects.sorted

def activeRoot? (d : ProjectsDocument) : Option Path :=
  d.projects.get? d.active

end ProjectsDocument

def readProjects (disk : Disk) (path : Path) : Except RegistryError ProjectsDocument :=
  readDocument ProjectsDocument.ofJson? .empty disk path

end Registry

end TodoIndex
