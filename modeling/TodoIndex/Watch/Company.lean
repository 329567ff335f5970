import TodoIndex.Scan.Shared
import TodoIndex.Watch.Watcher

/-!
# Watchers with their rescans

A watcher spawns rescans and goes on; they run beside it as calls of a shared engine, in any
order and mixed with calls of others, and the files may change at any time.  A rescan that has
come to its end is joined.  A watcher that is being stopped comes to its end only when all its
rescans are joined.
-/

namespace TodoIndex

/-- A watcher, the engine it shares with others, and its rescans. -/
structure Company where
  watcher : Watcher
  shared : SharedEngine
  /-- The calls of all rescans that the watcher ever spawned, the first one first. -/
  spawned : List Nat
  /-- Those of them that have not been joined. -/
  running : List Nat
  deriving Inhabited

namespace Company

def make (watcher : Watcher) (shared : SharedEngine) : Company :=
  ⟨watcher, shared, [], []⟩

def unburdened : Watcher -> Watcher
  | .idle loop => .idle { loop with rescans := [] }
  | .watching loop => .watching { loop with rescans := [] }
  | .draining loop => .draining { loop with rescans := [] }
  | w => w

def launch (c : Company) (rescan : String × Path) : Company :=
  let who := c.shared.nextCall
  { c with
    shared := c.shared.ask (.scan rescan.2 rescan.1)
    spawned := c.spawned ++ [who]
    running := c.running ++ [who] }

/-- The watcher has done something: let all rescans that are due begin. -/
def follow (c : Company) (watcher : Watcher) : Company :=
  watcher.rescans.foldl launch { c with watcher := unburdened watcher }

/-- One thing that can happen. -/
inductive Move where
  | start (tracked : Except RegistryError (List (String × Path)))
  | track (name : String) (root : Path)
  | untrack (name : String)
  | receive (now : Nat) (message : Message)
  | sweep (now : Nat)
  /-- The watcher is told to stop, and its loop has heard it. -/
  | close
  /-- Somebody else asks the engine for something. -/
  | ask (call : Call)
  /-- A call of the engine does its next step. -/
  | advance (who : Nat) (obstacle : Store.Obstacle)
  /-- Somebody else changes the files. -/
  | edit (disk : Disk)
  /-- A rescan that has come to its end is joined. -/
  | join (who : Nat)
  /-- The watcher that was told to stop has stopped. -/
  | finish

/-- The rescan is joined, if it has come to its end. -/
def join? (c : Company) (who : Nat) : Option Company :=
  if c.running.contains who && (c.shared.answer? who).isSome then
    some { c with running := c.running.erase who }
  else none

/-- The watcher stops, if all its rescans are joined. -/
def finish? (c : Company) : Option Company :=
  match c.watcher with
  | .draining _ =>
      if c.running.isEmpty then some { c with watcher := c.watcher.finish.value } else none
  | _ => none

/-- What comes of a move, if it is possible. -/
def move? (c : Company) : Move -> Option Company
  | .start tracked => some (c.follow (c.watcher.start c.shared.disk tracked).value.2)
  | .track name root => some (c.follow (c.watcher.track c.shared.disk name root).value.2)
  | .untrack name => some (c.follow (c.watcher.untrack name).value.2)
  | .receive now message => some (c.follow (c.watcher.receive c.shared.disk now message).value)
  | .sweep now => some (c.follow (c.watcher.sweep now).value)
  | .close => some (c.follow c.watcher.close.value)
  | .ask call => some { c with shared := c.shared.ask call }
  | .advance who obstacle =>
      (c.shared.advance who obstacle).map fun shared => { c with shared }
  | .edit disk => some { c with shared := { c.shared with disk } }
  | .join who => c.join? who
  | .finish => c.finish?

/-- The states that a watcher can come to with its rescans. -/
inductive Reachable (first : Company) : Company -> Prop where
  | start : Reachable first first
  | move {c d : Company} (m : Move) :
      Reachable first c -> c.move? m = some d -> Reachable first d

end Company

end TodoIndex
