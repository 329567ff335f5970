import TodoIndex.Scan.Engine
import TodoIndex.Watch.Debouncer
import TodoIndex.Watch.Source
import TodoIndex.Watch.WatchSet

/-!
# The watcher's loop

The loop turns changes into rescans.  A change of a source file in a built-in language causes
a rescan at once; other changes wait until they are quiet, and a sweep then makes one rescan
for each project they belong to.  Changes of ignore files change what is subscribed.  Rescans
that are due are kept in a queue; running them is not the loop's work.
-/

namespace TodoIndex

/-- The state of the loop. -/
structure Loop where
  engine : Engine
  source : Source
  projects : WatchSet
  debouncer : Debouncer
  /-- The extensions for which a change causes a rescan at once. -/
  fastPath : List String
  /-- The documents the program itself writes or reads, in all their spellings. -/
  ownPaths : List Path
  /-- The rescans that are due, the first one first. -/
  rescans : List (String × Path)
  deriving Inhabited

namespace Loop

/-- A rescan of a project is due. -/
def spawn (l : Loop) (name : String) (root : Path) : Noted Loop := do
  Noted.debug .watcher s!"rescan: {name}"
  pure { l with rescans := l.rescans ++ [(name, root)] }

/-- Subscribe directories; those that the source refuses are left out. -/
def subscribeAll : (folders : List Path) -> Source -> Noted (List Path × Source)
  | [], source => pure ([], source)
  | folder :: rest, source =>
      match source.subscribe folder with
      | (.ok (), source) => do
          let (more, source) <- subscribeAll rest source
          pure (folder :: more, source)
      | (.error e, source) => do
          Noted.warn .watcher e.message
          subscribeAll rest source

def unsubscribeAll (projects : WatchSet) (name : String) :
    (folders : List Path) -> Source -> Noted Source
  | [], source => pure source
  | folder :: rest, source =>
      if projects.isSubscribedElsewhere folder name then
        unsubscribeAll projects name rest source
      else
        match source.unsubscribe folder with
        | (.ok (), source) => unsubscribeAll projects name rest source
        | (.error e, source) => do
            Noted.debug .watcher s!"unsubscribe failed: {e}"
            unsubscribeAll projects name rest source

/-- Subscribe the directories of a project and watch it; also say how many there are. -/
def track (l : Loop) (disk : Disk) (name : String) (root : Path) : Noted (Nat × Loop) := do
  let filter <- l.engine.filterFor disk root
  let wanted <- Walk.folders filter disk root
  let (folders, source) <- subscribeAll wanted l.source
  if folders.isEmpty then
    Noted.warn .watcher s!"nothing to watch for {name} at {root}"
  Noted.debug .watcher s!"tracking: {name}: {folders.length} directories"
  pure (folders.length,
    { l with source, projects := l.projects.insert ⟨name, root, filter, folders⟩ })

/-- Watch a project no more; also say whether it was watched. -/
def untrack (l : Loop) (name : String) : Noted (Bool × Loop) :=
  match l.projects.get? name with
  | none => pure (false, l)
  | some project => do
      let projects := l.projects.remove name
      let source <- unsubscribeAll projects name project.folders l.source
      Noted.info .watcher s!"untracked: {name}"
      pure (true, { l with
        source, projects, debouncer := l.debouncer.forgetUnder project.root })

/-- Of some directories those that are not among others. -/
def without (folders others : List Path) : List Path :=
  folders.filter fun folder => !others.any (·.same folder)

def among (folders others : List Path) : List Path :=
  folders.filter fun folder => others.any (·.same folder)

/-- Of directories those that are not among the ones seen before, each once. -/
def unseen : (seen folders : List Path) -> List Path
  | _, [] => []
  | seen, folder :: rest =>
      if seen.any (·.same folder) then unseen seen rest
      else folder :: unseen (folder :: seen) rest

/-- Of several spellings of a directory only the first. -/
def distinct (folders : List Path) : List Path :=
  unseen [] folders

/-- Read the ignore file of a project again, subscribe what it wants now and no more, and
rescan the project. -/
def reloadFilter (l : Loop) (disk : Disk) (project : WatchedProject) : Noted Loop := do
  let filter <- l.engine.filterFor disk project.root
  let wanted <- distinct <$> Walk.folders filter disk project.root
  let current := distinct project.folders
  let source <- unsubscribeAll l.projects project.name (without current wanted) l.source
  let (added, source) <- subscribeAll (without wanted current) source
  let folders := Debouncer.sortPaths (among current wanted ++ added)
  Noted.info .watcher s!"ignore rules reloaded: {project.name}: {folders.length} directories"
  let projects := l.projects.modify project.name fun p => { p with filter, folders }
  spawn { l with source, projects, debouncer := l.debouncer.forgetUnder project.root }
    project.name project.root

/-- Subscribe a new directory and all below it, for the project that it belongs to. -/
def subscribeNew (l : Loop) (disk : Disk) (folder : Path) (owner : Option WatchedProject) :
    Noted Loop := do
  let filter := (owner.map (·.filter)).getD .defaults
  let found <- Walk.folders filter disk folder
  let (added, source) <- subscribeAll found l.source
  Noted.debug .watcher s!"new directory: {folder} ({added.length} subscribed)"
  let projects := match owner with
    | some p => l.projects.modify p.name fun p => { p with folders := p.folders ++ added }
    | none => l.projects
  pure { l with source, projects }

/-- Whether a path is one of the program's own documents. -/
def isOwn (l : Loop) (path : Path) : Bool :=
  l.ownPaths.any (·.same path)

def isIgnoreFile (l : Loop) (path : Path) (project : WatchedProject) : Bool :=
  path.same (project.root.join (Path.ofString l.engine.settings.ignoreFile))

/-- Whether a path is ignored by the project that it belongs to, or by default. -/
def ignores (path : Path) : Option WatchedProject -> Bool
  | some project => project.rejects path
  | none => Ignore.Filter.defaults.ignores path

/-- A source file changed, or a directory that is none any more. -/
def handleFile (l : Loop) (now : Nat) (path : Path) (owner : Option WatchedProject) :
    Noted Loop :=
  match Extension.ofPath? path with
  | none => pure l
  | some extension =>
      match owner with
      | some project =>
          if l.fastPath.contains extension then do
            Noted.debug .watcher s!"fast path: {path}"
            l.spawn project.name project.root
          else pure { l with debouncer := l.debouncer.record path now }
      | none => pure { l with debouncer := l.debouncer.record path now }

/-- Something changed that is neither an own document nor an ignore file. -/
def handleOther (l : Loop) (disk : Disk) (now : Nat) (change : Change)
    (owner : Option WatchedProject) : Noted Loop :=
  if ignores change.path owner then do
    Noted.debug .watcher s!"ignored: {change.path}"
    pure l
  else if disk.isFolder change.path then
    if change.kind = .created then l.subscribeNew disk change.path owner else pure l
  else l.handleFile now change.path owner

def handle (l : Loop) (disk : Disk) (now : Nat) (change : Change) : Noted Loop :=
  if l.isOwn change.path then pure l
  else
    match l.projects.resolve change.path with
    | none => l.handleOther disk now change none
    | some project =>
        if l.isIgnoreFile change.path project then l.reloadFilter disk project
        else l.handleOther disk now change (some project)

def receive (l : Loop) (disk : Disk) (now : Nat) : Message -> Noted Loop
  | .ok change => l.handle disk now change
  | .error e => do
      Noted.warn .watcher e.message
      pure l

/-- The projects that quiet paths belong to, each once and in the order of the names. -/
def insertDue (name : String) (root : Path) : List (String × Path) -> List (String × Path)
  | [] => [(name, root)]
  | (other, path) :: rest =>
      if name = other then (other, path) :: rest
      else if name < other then (name, root) :: (other, path) :: rest
      else (other, path) :: insertDue name root rest

/-- Find out to whom quiet paths belong. -/
def dueOf (projects : WatchSet) (due : List (String × Path)) (path : Path) :
    Noted (List (String × Path)) :=
  match projects.resolve path with
  | some project => pure (insertDue project.name project.root due)
  | none => do
      Noted.debug .watcher s!"unowned: {path}"
      pure due

def belongsTo (projects : WatchSet) (names : List String) (path : Path) : Bool :=
  (projects.resolve path).any fun p => names.contains p.name

/-- Make the rescans that are due and forget all other pending paths of these projects. -/
def sweep (l : Loop) (now : Nat) : Noted Loop := do
  let due <- (l.debouncer.ready now).foldlM (dueOf l.projects) []
  let debouncer := (l.debouncer.dropReady now).dropMatching
    (belongsTo l.projects (due.map Prod.fst))
  due.foldlM (fun l (name, root) => l.spawn name root) { l with debouncer }

end Loop

end TodoIndex
