import TodoIndex.Ignore.Rules

/-!
# Watched projects

The projects that are watched, each with the directories that are subscribed for it.  A path
belongs to the project with the deepest root above it.
-/

namespace TodoIndex

/-- A project that is watched. -/
structure WatchedProject where
  name : String
  root : Path
  filter : Ignore.Filter
  /-- The directories that are subscribed for the project. -/
  folders : List Path
  deriving Inhabited

namespace WatchedProject

/-- Whether the project ignores a path, or a directory above it. -/
def rejects (p : WatchedProject) (path : Path) : Bool :=
  p.filter.prunes p.root path

def lists (p : WatchedProject) (folder : Path) : Bool :=
  p.folders.any (·.same folder)

/-- How deep the root lies. -/
def depth (p : WatchedProject) : Nat :=
  p.root.components.length

end WatchedProject

/-- The projects that are watched, in the order in which they were inserted. -/
structure WatchSet where
  projects : List WatchedProject
  deriving Inhabited

namespace WatchSet

def empty : WatchSet :=
  ⟨[]⟩

def get? (s : WatchSet) (name : String) : Option WatchedProject :=
  s.projects.find? (·.name = name)

/-- Take the project of a name away. -/
def remove (s : WatchSet) (name : String) : WatchSet :=
  ⟨s.projects.eraseP (·.name = name)⟩

/-- Insert a project behind the others, in place of the one that has its name. -/
def insert (s : WatchSet) (p : WatchedProject) : WatchSet :=
  ⟨(s.remove p.name).projects ++ [p]⟩

def modify (s : WatchSet) (name : String) (change : WatchedProject -> WatchedProject) : WatchSet :=
  ⟨s.projects.map fun p => if p.name = name then change p else p⟩

/-- The deepest of some projects; of equally deep ones the last. -/
def deepest : List WatchedProject -> Option WatchedProject
  | [] => none
  | p :: rest =>
      match deepest rest with
      | none => some p
      | some q => if p.depth <= q.depth then some q else some p

def resolve (s : WatchSet) (path : Path) : Option WatchedProject :=
  deepest (s.projects.filter fun p => path.startsWith p.root)

/-- Whether a directory is subscribed for another project than the one of a name. -/
def isSubscribedElsewhere (s : WatchSet) (folder : Path) (except : String) : Bool :=
  s.projects.any fun p => p.name != except && p.lists folder

def names (s : WatchSet) : List String :=
  s.projects.map (·.name)

def size (s : WatchSet) : Nat :=
  s.projects.length

/-- How many directories are subscribed for all projects together. -/
def folderCount (s : WatchSet) : Nat :=
  s.projects.foldl (fun n project => n + project.folders.length) 0

end WatchSet

end TodoIndex
