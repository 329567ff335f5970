import TodoIndex.Files.Path

/-!
# Pending changes

Paths that changed wait until they have been quiet for a while, the window.  Times are
milliseconds; a time before the last change counts as no time since then.  Two spellings of one
place are one path, and the first spelling stays.
-/

namespace TodoIndex

/-- Changed paths, each with the time of its last change. -/
structure Debouncer where
  window : Nat
  pending : List (Path × Nat)
  deriving DecidableEq, Inhabited

namespace Debouncer

def empty (window : Nat) : Debouncer :=
  ⟨window, []⟩

def setTime (path : Path) (time : Nat) : List (Path × Nat) -> List (Path × Nat)
  | [] => [(path, time)]
  | (other, old) :: rest =>
      if other.same path then (other, time) :: rest else (other, old) :: setTime path time rest

def record (d : Debouncer) (path : Path) (time : Nat) : Debouncer :=
  { d with pending := setTime path time d.pending }

/-- Whether a change is as long ago as the window is. -/
def isQuiet (d : Debouncer) (now time : Nat) : Bool :=
  d.window <= now - time

def forgetUnder (d : Debouncer) (root : Path) : Debouncer :=
  { d with pending := d.pending.filter fun (path, _) => !path.startsWith root }

def sortPaths (paths : List Path) : List Path :=
  paths.mergeSort fun p q => p.compare q != .gt

/-- The paths that are quiet, in order. -/
def ready (d : Debouncer) (now : Nat) : List Path :=
  sortPaths ((d.pending.filter fun (_, time) => d.isQuiet now time).map Prod.fst)

/-- What is pending without the paths that are quiet. -/
def dropReady (d : Debouncer) (now : Nat) : Debouncer :=
  { d with pending := d.pending.filter fun (_, time) => !d.isQuiet now time }

def matching (d : Debouncer) (property : Path -> Bool) : List Path :=
  (d.pending.map Prod.fst).filter property

def dropMatching (d : Debouncer) (property : Path -> Bool) : Debouncer :=
  { d with pending := d.pending.filter fun (path, _) => !property path }

def hasPending (d : Debouncer) : Bool :=
  !d.pending.isEmpty

def count (d : Debouncer) : Nat :=
  d.pending.length

end Debouncer

end TodoIndex
