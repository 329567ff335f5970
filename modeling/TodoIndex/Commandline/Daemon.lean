import TodoIndex.Commandline.Commands
import TodoIndex.Watch.Edit
import TodoIndex.Watch.Session

/-!
# The daemon

The daemon scans all tracked projects once and then watches them.  It prints a line for each
scan that the watcher makes; of the first scans only notes tell.
-/

namespace TodoIndex

namespace Commandline

namespace Daemon

def eventLine : ScanEvent -> String
  | .completed project _ remarks resolved =>
      s!"{project}: {remarks} annotations ({resolved} resolved)"
  | .failed project _ reason => s!"{project}: scan failed: {reason}"
  | .removed project => s!"{project}: removed"

/-- The first scans; nobody listens to their events. -/
def scanFirst (engine : Engine) (disk : Disk) : Noted (Pass (List Engine.Outcome)) := do
  let tracked := (Registry.readProjects disk engine.settings.projectsPath).map (·.tracked)
  let pass <- ({ engine with audience := some 0 } : Engine).scanAll disk tracked
  if let .ok outcomes := pass.outcome then
    let failed := (outcomes.filter fun o => o.result.toOption.isNone).length
    Noted.info .daemon s!"initial scan: {outcomes.length} projects, {failed} failed"
  pure pass

/-- Watch the tracked projects from now on; say how many there are. -/
def watch (engine : Engine) (disk : Disk) : Noted (Except WatchError Nat × Session) := do
  let tracked := (Registry.readProjects disk engine.settings.projectsPath).map (·.tracked)
  let source := Source.make fun _ _ => none
  let watcher <- Watcher.ofEngine { engine with audience := some 1 } source disk {}
  (Session.make disk watcher).start tracked

/-- Scan all tracked projects, then watch them. -/
def start (engine : Engine) (disk : Disk) : Noted (Except Failure Nat × Session) := do
  let pass <- scanFirst engine disk
  match pass.outcome with
  | .error e => pure (.error (.ofScan e), { (default : Session) with disk := pass.disk })
  | .ok _ =>
      let (answer, session) <- watch engine pass.disk
      pure (answer.mapError .ofWatch, session)

/-- How long changes of a session have to be quiet. -/
def window (s : Session) : Nat :=
  match s.watcher with
  | .watching loop => loop.debouncer.window
  | _ => 0

/-- The source says something. -/
def sendAll (s : Session) (changes : List Change) : Session :=
  changes.foldl (fun s change => (s.send (.ok change)).2) s

/-- Act on changes: at once if that gives a scan, and when they are quiet otherwise. -/
def heed (s : Session) (changes : List Change) : Noted (Session × List ScanEvent) := do
  let (s, events) <- (sendAll s changes).settle
  if events.isEmpty then
    let s <- (s.wait (window s)).sweep
    s.settle
  else pure (s, events)

/-- Make an edit and act on what the source says of it. -/
def makeEdit (s : Session) (edit : Edit) : Noted (Session × List ScanEvent) :=
  let after := (edit.apply s.disk).2
  heed { s with disk := after } (edit.changes s.watcher.source.subscribed s.disk after)

def makeEdits : List Edit -> Session -> Noted (Session × List ScanEvent)
  | [], s => pure (s, [])
  | edit :: edits, s => do
      let (s, events) <- makeEdit s edit
      let (s, more) <- makeEdits edits s
      pure (s, events ++ more)

/-- The line that says how many projects are watched. -/
def greeting (count : Nat) : String :=
  s!"Watching {count} projects. Press Ctrl-C to stop."

/-- Run the daemon while edits are made, and stop it. -/
def run (engine : Engine) (disk : Disk) (edits : List Edit) : Noted Ran := do
  let (answer, session) <- start engine disk
  match answer with
  | .error e => pure (.failed session.disk e)
  | .ok count =>
      let (session, events) <- makeEdits edits session
      let (session, last) <- session.stop
      let lines := (events ++ last).map eventLine
      pure (.done session.disk (greeting count :: lines ++ ["Stopped."]))

end Daemon

end Commandline

end TodoIndex
