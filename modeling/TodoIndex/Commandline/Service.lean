import TodoIndex.Commandline.Run
import TodoIndex.Watch.Poll

/-!
# A daemon that runs on

A daemon without anybody to tell it of changes looks at the disk again and again.
-/

namespace TodoIndex

namespace Commandline

/-- A daemon at work, with the notes that it shows. -/
structure Service where
  filter : NoteFilter
  session : Session
  deriving Inhabited

namespace Service

def shows (filter : NoteFilter) (session : Session) (notes : List Note) (lines : List String) :
    Finish × Option Service :=
  (⟨0, textOfLines lines, textOfLines (filter.lines .daemon notes), session.disk⟩,
    some ⟨filter, session⟩)

def startWith (helpers : Helper.Runner) (environment : Environment) (disk : Disk)
    (settings : Settings) : Finish × Option Service :=
  let (filter, complaints) := NoteFilter.make environment settings.logging .daemon
  let started : Noted (Except Failure Nat × Session) := do
    Daemon.start (<- engineOf helpers settings disk) disk
  let (answer, session) := started.value
  match answer with
  | .error e =>
      let shown := complaints ++ filter.lines .daemon started.notes
      (.ofRan shown (.failed session.disk e), none)
  | .ok count => shows filter session started.notes [Daemon.greeting count]

def start (helpers : Helper.Runner) (environment : Environment) (disk : Disk)
    (request : Request) : Finish × Option Service :=
  let path := documentPath environment request
  match Settings.load disk environment path with
  | .error e => (.ofRan [] (.failed disk (.plain s!"failed to load {path}: {e}")), none)
  | .ok settings => startWith helpers environment disk settings

/-- Act on what has changed and on what is quiet by now. -/
def observe (s : Session) (disk : Disk) (now : Nat) : Noted (Session × List ScanEvent) := do
  let changes := s.watcher.source.poll s.disk disk
  let (s, events) <- (Daemon.sendAll { s with disk, now } changes).settle
  let s <- s.sweep
  let (s, more) <- s.settle
  pure (s, events ++ more)

def look (s : Service) (disk : Disk) (now : Nat) : Finish × Option Service :=
  let seen := observe s.session disk now
  shows s.filter seen.value.1 seen.notes (seen.value.2.map Daemon.eventLine)

/-- The time between looks, in milliseconds. -/
def interval (s : Service) : Nat :=
  match s.session.watcher with
  | .watching loop => loop.engine.settings.watcher.sweep
  | _ => 1000

end Service

end Commandline

end TodoIndex
