import TodoIndex.Watch.Watcher

/-!
# Watching a disk

A session is a watcher at work: a disk that changes, messages that wait, and a clock.  After
each action everything runs that can run: first the waiting messages are taken in their order,
then the rescans that are due.
-/

namespace TodoIndex

/-- A watcher with the world around it. -/
structure Session where
  disk : Disk
  watcher : Watcher
  /-- Messages that nobody has taken. -/
  waiting : List Message
  /-- Whether the source can still send messages. -/
  sending : Bool
  /-- Whether the watcher has not yet heard that the source sends no more. -/
  listening : Bool
  /-- The time, in milliseconds. -/
  now : Nat
  deriving Inhabited

namespace Session

def make (disk : Disk) (watcher : Watcher) : Session :=
  ⟨disk, watcher, [], !watcher.source.taken, true, 0⟩

/-- Whether a message reaches the stream. -/
def accepts (s : Session) : Bool :=
  s.sending && match s.watcher with
    | .idle _ | .watching _ => true
    | .spent _ | .draining _ | .stopped _ => false

/-- Send a message; also say whether it reached the stream. -/
def send (s : Session) (message : Message) : Bool × Session :=
  if s.accepts then (true, { s with waiting := s.waiting ++ [message] }) else (false, s)

def closeStream (s : Session) : Session :=
  { s with sending := false }

def wait (s : Session) (time : Nat) : Session :=
  { s with now := s.now + time }

def takeMessages (s : Session) : Noted Session :=
  match s.watcher with
  | .watching _ => do
      let watcher <- s.waiting.foldlM (fun w m => w.receive s.disk s.now m) s.watcher
      let s := { s with watcher, waiting := [] }
      if s.listening && !s.sending then
        Noted.warn .watcher "change source closed"
        pure { s with listening := false }
      else pure s
  | _ => pure s

def runRescans (engine : Engine) :
    List (String × Path) -> Disk -> Noted (Disk × List ScanEvent)
  | [], disk => pure (disk, [])
  | (name, root) :: rest, disk => do
      let pass <- engine.runScan disk root name
      let (disk, events) <- runRescans engine rest pass.disk
      pure (disk, pass.events ++ events)

def takeRescans (s : Session) : Noted (Session × List ScanEvent) :=
  match s.watcher with
  | .watching loop => do
      let (disk, events) <- runRescans loop.engine loop.rescans s.disk
      pure ({ s with disk, watcher := .watching { loop with rescans := [] } }, events)
  | .draining loop => do
      let (disk, events) <- runRescans loop.engine loop.rescans s.disk
      pure ({ s with disk, watcher := .draining { loop with rescans := [] } }, events)
  | _ => pure (s, [])

def settle (s : Session) : Noted (Session × List ScanEvent) := do
  let s <- s.takeMessages
  let (s, events) <- s.takeRescans
  let watcher <- s.watcher.finish
  pure ({ s with watcher }, events)

def start (s : Session) (tracked : Except RegistryError (List (String × Path))) :
    Noted (Except WatchError Nat × Session) := do
  let (answer, watcher) <- s.watcher.start s.disk tracked
  pure (answer, { s with watcher })

def track (s : Session) (name : String) (root : Path) :
    Noted (Except WatchError Nat × Session) := do
  let (answer, watcher) <- s.watcher.track s.disk name root
  pure (answer, { s with watcher })

def untrack (s : Session) (name : String) : Noted (Except WatchError Bool × Session) := do
  let (answer, watcher) <- s.watcher.untrack name
  pure (answer, { s with watcher })

def sweep (s : Session) : Noted Session := do
  let watcher <- s.watcher.sweep s.now
  pure { s with watcher }

/-- Stop the watcher and wait until it has stopped; no rescan is lost. -/
def stop (s : Session) : Noted (Session × List ScanEvent) := do
  let watcher <- s.watcher.close
  let (s, events) <- takeRescans { s with watcher }
  let watcher <- s.watcher.finish
  pure ({ s with watcher }, events)

end Session

end TodoIndex
