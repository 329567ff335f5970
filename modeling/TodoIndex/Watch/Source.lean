import TodoIndex.Files.Path

/-!
# Change sources

A source reports changes of the entries of the directories that are subscribed at it.  It may
refuse any call, and it drops a directory only when it is told to, if then.
-/

namespace TodoIndex

/-- What happened to a file or directory. -/
inductive ChangeKind where
  | created
  | modified
  | removed
  | other
  deriving DecidableEq, Repr, Inhabited

/-- A change that a source reports. -/
structure Change where
  path : Path
  kind : ChangeKind
  deriving DecidableEq, Inhabited

/-- What the operating system says happened; it also gives details, which nobody asks for. -/
inductive EventKind where
  | any
  | access
  | create
  | modify
  | remove
  | other
  deriving DecidableEq, Repr, Inhabited

/-- What the operating system says of one path or several. -/
structure SystemEvent where
  kind : EventKind
  paths : List Path
  deriving DecidableEq, Inhabited

/-- What a kind of events comes to; to look at something does not change it. -/
def ChangeKind.ofEvent? : EventKind -> Option ChangeKind
  | .create => some .created
  | .modify => some .modified
  | .remove => some .removed
  | .access => none
  | .any => some .other
  | .other => some .other

/-- What a source reports of an event. -/
def SystemEvent.changes (event : SystemEvent) : List Change :=
  match ChangeKind.ofEvent? event.kind with
  | some kind => event.paths.map fun path => ⟨path, kind⟩
  | none => []

/-- The states of a watcher. -/
inductive WatcherState where
  | idle
  | watching
  | shuttingDown
  | stopped
  deriving DecidableEq, Repr, Inhabited

namespace WatcherState

def name : WatcherState -> String
  | .idle => "Idle"
  | .watching => "Watching"
  | .shuttingDown => "ShuttingDown"
  | .stopped => "Stopped"

instance : ToString WatcherState where
  toString := name

/-- States only change to ones of a greater rank. -/
def rank : WatcherState -> Nat
  | .idle => 0
  | .watching => 1
  | .shuttingDown => 2
  | .stopped => 3

end WatcherState

/-- Why a watcher could not do something. -/
inductive WatchError where
  | initFailed (reason : String)
  | pathWatchFailed (path : Path) (reason : String)
  | eventError (details : String)
  | registryFailed (reason : String)
  | invalidState (state : WatcherState)
  | channelClosed
  deriving DecidableEq, Inhabited

namespace WatchError

def message : WatchError -> String
  | .initFailed reason => s!"Failed to initialize watcher: {reason}"
  | .pathWatchFailed path reason => s!"Cannot watch path {path}: {reason}"
  | .eventError details => s!"File system event error: {details}"
  | .registryFailed reason => s!"Failed to list tracked projects: {reason}"
  | .invalidState state =>
      s!"Operation requires a watching watcher, current state is {state}"
  | .channelClosed => "Channel closed unexpectedly"

instance : ToString WatchError where
  toString := message

end WatchError

/-- What a source says next: a change, or that it failed. -/
abbrev Message := Except WatchError Change

/-- A source with the directories that are subscribed at it, one entry for each subscription.
The answer to a call can depend on how many calls were made before. -/
structure Source where
  subscribed : List Path
  calls : Nat
  /-- The reason for which a call on a directory is refused. -/
  refusal : Nat -> Path -> Option String
  /-- Whether the source goes on with a directory when it refuses to drop it. -/
  keeps : Nat -> Path -> Bool
  /-- Whether somebody has taken the stream of messages. -/
  taken : Bool
  closed : Bool
  deriving Inhabited

namespace Source

/-- A new source that refuses calls as it is told and drops a directory even then. -/
def make (refusal : Nat -> Path -> Option String) : Source :=
  ⟨[], 0, refusal, fun _ _ => false, false, false⟩

/-- Ask for the changes in a directory. -/
def subscribe (s : Source) (folder : Path) : Except WatchError Unit × Source :=
  let next := { s with calls := s.calls + 1 }
  match s.refusal s.calls folder with
  | some reason => (.error (.pathWatchFailed folder reason), next)
  | none => (.ok (), { next with subscribed := s.subscribed ++ [folder] })

/-- Ask no more for the changes in a directory; it may be dropped even if the call is refused. -/
def unsubscribe (s : Source) (folder : Path) : Except WatchError Unit × Source :=
  let next := { s with calls := s.calls + 1 }
  let dropped := { next with subscribed := s.subscribed.filter (!·.same folder) }
  match s.refusal s.calls folder with
  | some reason =>
      (.error (.pathWatchFailed folder reason), if s.keeps s.calls folder then next else dropped)
  | none => (.ok (), dropped)

/-- Take the stream of messages, which can be taken once. -/
def takeStream? (s : Source) : Option Source :=
  if s.taken then none else some { s with taken := true }

def close (s : Source) : Source :=
  { s with closed := true }

end Source

end TodoIndex
