import TodoIndex.Watch.Loop

/-!
# Watchers

A watcher is built around a source, started once and stopped for ever.  It takes tracked
projects in and out while it watches; in every other state it refuses to.  A watcher that is
being stopped first closes its source and then waits until no rescan is due any more.
-/

namespace TodoIndex

/-- A watcher, as far as it has come. -/
inductive Watcher where
  | idle (loop : Loop)
  /-- It was started in vain and has lost its loop. -/
  | spent (source : Source)
  | watching (loop : Loop)
  /-- It has been stopped, but rescans may still be due. -/
  | draining (loop : Loop)
  | stopped (source : Source)
  deriving Inhabited

namespace Watcher

def state : Watcher -> WatcherState
  | .idle _ | .spent _ => .idle
  | .watching _ => .watching
  | .draining _ => .shuttingDown
  | .stopped _ => .stopped

def source : Watcher -> Source
  | .idle loop | .watching loop | .draining loop => loop.source
  | .spent source | .stopped source => source

def rescans : Watcher -> List (String × Path)
  | .idle loop | .watching loop | .draining loop => loop.rescans
  | .spent _ | .stopped _ => []

/-- What can be set for a watcher apart from the settings. -/
structure Options where
  /-- How long a changed path has to be quiet, in milliseconds. -/
  debounce : Option Nat := none
  /-- The time between sweeps, in milliseconds. -/
  sweepInterval : Option Nat := none
  /-- Whether changes in built-in languages cause a rescan at once. -/
  fastPath : Option Bool := none
  /-- More paths whose changes never cause a rescan. -/
  ignored : List Path := []
  deriving Inhabited

/-- The spellings that a change may use for a path: as it is given, without links in its
directory, and absolute. -/
def spellings (disk : Disk) (path : Path) : List Path :=
  if path.isEmpty then [path]
  else
    let whole := disk.absolute path
    let resolved := match whole.parent?, whole.fileName? with
      | some folder, some name =>
          match disk.canonical folder with
          | .ok folder => [folder.child name]
          | .error _ => []
      | _, _ => []
    path :: resolved ++ [whole]

/-- The documents that the program itself writes or reads, in all their spellings. -/
def ownPaths (engine : Engine) (disk : Disk) (ignored : List Path) : List Path :=
  (ignored ++ [engine.storePath, engine.settings.projectsPath, engine.settings.pluginsPath]).flatMap
    (spellings disk)

/-- A time in milliseconds, in seconds if it is as long as that. -/
def timeText (time : Nat) : String :=
  if time = 0 then "0ns"
  else if time < 1000 then s!"{time}ms"
  else
    let part := (toString (1000 + time % 1000)).toList.drop 1
    let digits := (part.reverse.dropWhile (· = '0')).reverse
    let fraction := String.ofList (if digits = [] then [] else '.' :: digits)
    s!"{time / 1000}{fraction}s"

/-- Build a watcher on an engine; it is idle. -/
def ofEngine (engine : Engine) (source : Source) (disk : Disk) (options : Options) :
    Noted Watcher := do
  let settings := engine.settings.watcher
  let debounce := options.debounce.getD settings.debounce
  let interval := (options.sweepInterval.map (max 1)).getD settings.sweep
  let fastPath :=
    if options.fastPath.getD settings.fastPath then engine.readers.builtInExtensions else []
  let windowText := timeText debounce
  let sweepText := timeText interval
  Noted.debug .watcher
    s!"configured: debounce {windowText}, sweep {sweepText}, {fastPath.length} fast-path extensions"
  pure (.idle ⟨engine, source, .empty, .empty debounce, fastPath,
    ownPaths engine disk options.ignored, []⟩)

/-- Build a watcher; it needs an engine. -/
def make (engine : Option Engine) (source : Source) (disk : Disk) (options : Options) :
    Noted (Except WatchError Watcher) :=
  match engine with
  | none => pure (.error (.initFailed "Scan engine is required"))
  | some engine => .ok <$> ofEngine engine source disk options

/-- Track projects one after another. -/
def trackAll (disk : Disk) : List (String × Path) -> Loop -> Noted Loop
  | [], loop => pure loop
  | (name, root) :: rest, loop => do
      let (_, loop) <- loop.track disk name root
      trackAll disk rest loop

/-- Start to watch, with the stream of messages at hand. -/
def startLoop (disk : Disk) (tracked : List (String × Path)) (loop : Loop) :
    Noted (Except WatchError Nat × Watcher) := do
  let loop <- trackAll disk tracked loop
  let count := loop.projects.size
  Noted.info .watcher
    s!"monitoring: {count} projects in {loop.projects.folderCount} directories"
  Noted.info .watcher "started"
  pure (.ok count, .watching loop)

/-- Start a watcher on the tracked projects; say how many there are. -/
def start (w : Watcher) (disk : Disk) (tracked : Except RegistryError (List (String × Path))) :
    Noted (Except WatchError Nat × Watcher) :=
  match w, tracked with
  | .idle _, .error e | .spent _, .error e => pure (.error (.registryFailed e.message), w)
  | .spent _, .ok _ => pure (.error (.invalidState .idle), w)
  | .idle loop, .ok projects =>
      match loop.source.takeStream? with
      | none =>
          pure (.error (.initFailed "change source stream already taken"), .spent loop.source)
      | some source => startLoop disk projects { loop with source }
  | w, _ => pure (.error (.invalidState w.state), w)

/-- Track one more project and rescan it; say how many directories are subscribed for it. -/
def track (w : Watcher) (disk : Disk) (name : String) (root : Path) :
    Noted (Except WatchError Nat × Watcher) :=
  match w with
  | .watching loop => do
      let (count, loop) <- loop.track disk name root
      let loop <- loop.spawn name root
      pure (.ok count, .watching loop)
  | w => pure (.error (.invalidState w.state), w)

/-- Track a project no more; say whether it was tracked. -/
def untrack (w : Watcher) (name : String) : Noted (Except WatchError Bool × Watcher) :=
  match w with
  | .watching loop => do
      let (was, loop) <- loop.untrack name
      pure (.ok was, .watching loop)
  | w => pure (.error (.invalidState w.state), w)

/-- Take a message of the source; only a watching watcher looks at it. -/
def receive (w : Watcher) (disk : Disk) (now : Nat) (message : Message) : Noted Watcher :=
  match w with
  | .watching loop => .watching <$> loop.receive disk now message
  | w => pure w

/-- Make the rescans that are due; only a watching watcher does. -/
def sweep (w : Watcher) (now : Nat) : Noted Watcher :=
  match w with
  | .watching loop => .watching <$> loop.sweep now
  | w => pure w

/-- Begin to stop: close the source and take no more messages and commands. -/
def close (w : Watcher) : Noted Watcher :=
  match w with
  | .idle loop => pure (.stopped loop.source.close)
  | .spent source => pure (.stopped source)
  | .watching loop => do
      Noted.info .watcher "stopping"
      Noted.debug .source "source closed"
      if !loop.rescans.isEmpty then
        Noted.debug .watcher s!"draining: {loop.rescans.length} rescans"
      pure (.draining { loop with source := loop.source.close })
  | .draining loop => pure (.draining loop)
  | .stopped source => pure (.stopped source)

/-- A watcher that is being stopped has come to its end when no rescan is due. -/
def finish (w : Watcher) : Noted Watcher :=
  match w with
  | .draining loop =>
      if loop.rescans.isEmpty then do
        Noted.info .watcher "stopped"
        pure (.stopped loop.source)
      else pure (.draining loop)
  | w => pure w

end Watcher

end TodoIndex
