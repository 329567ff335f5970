import TodoIndex.Ignore.Project
import TodoIndex.Reading
import TodoIndex.Registry.Projects
import TodoIndex.Scan.Report
import TodoIndex.Walk

/-!
# Scans

A scan of a project walks its files, reads those that a reader claims, and replaces the
project's remarks in the store.  It is made of three steps: `gather` reads the project,
`conclude` is the pure change of the store, and the store is saved.  Nothing but the store
document is ever changed.
-/

namespace TodoIndex

/-- What scans need to know. -/
structure Engine where
  settings : Settings
  readers : Readers
  storePath : Path
  run : Helper.Runner
  /-- How many listeners there are for events, if they are sent at all. -/
  audience : Option Nat
  deriving Inhabited

/-- What was found in the files of a project. -/
structure Gathered where
  visited : Nat
  parsed : Nat
  failures : Nat
  remarks : List Remark
  deriving DecidableEq, Inhabited

namespace Gathered

def empty : Gathered :=
  ⟨0, 0, 0, []⟩

/-- One more file that nobody claims. -/
def skip (g : Gathered) : Gathered :=
  { g with visited := g.visited + 1 }

def add (g : Gathered) (remarks : List Remark) : Gathered :=
  { g with visited := g.visited + 1, parsed := g.parsed + 1, remarks := g.remarks ++ remarks }

/-- One more file that could not be read. -/
def fail (g : Gathered) : Gathered :=
  { g with visited := g.visited + 1, failures := g.failures + 1 }

end Gathered

/-- What came of an operation on the store, the disk after it, and the event that tells of it. -/
structure Pass (α : Type) where
  outcome : Except ScanError α
  disk : Disk
  events : List ScanEvent
  deriving Inhabited

namespace Engine

def make (settings : Settings) (readers : Readers) (run : Helper.Runner) : Engine :=
  ⟨settings, readers, settings.storePath, run, none⟩

def filterFor (e : Engine) (disk : Disk) (root : Path) : Noted Ignore.Filter :=
  Ignore.Filter.forProject disk root e.settings.ignoreFile

def loadStore (e : Engine) (disk : Disk) : Noted (Except ScanError Store) := do
  Noted.addAll (Store.loadNotes disk e.storePath)
  pure ((Store.load disk e.storePath).mapError .store)

/-- How long a helper command may run, in milliseconds. -/
def helperLimit (e : Engine) : Nat :=
  e.settings.helperSeconds * 1000

/-- The remarks of one file, if a reader claims it. -/
def remarksIn? (e : Engine) (disk : Disk) (path : Path) :
    Noted (Option (Except ReadError (List Remark))) :=
  match e.readers.claimOfPath? path with
  | some claim => some <$> Reading.read e.run e.helperLimit claim.reader disk path
  | none => pure none

def gatherFile (e : Engine) (disk : Disk) (project : String) (g : Gathered) (path : Path) :
    Noted Gathered := do
  match <- e.remarksIn? disk path with
  | none => pure g.skip
  | some (.ok remarks) => pure (g.add remarks)
  | some (.error cause) =>
      Noted.warn .scan s!"{project}: {cause}"
      pure g.fail

/-- Walk the files of a project and read them. -/
def gather (e : Engine) (disk : Disk) (root : Path) (project : String) :
    Noted (Except ScanError Gathered) :=
  match disk.readFolder root with
  | .error cause => pure (.error (.rootUnreadable root cause))
  | .ok _ => do
      let filter <- e.filterFor disk root
      let files <- Walk.files filter disk root
      .ok <$> files.foldlM (e.gatherFile disk project) .empty

/-- The store with the new remarks of a project, and the report on them. -/
def conclude (root : Path) (project : String) (g : Gathered) (store : Store) : Report × Store :=
  let old := (store.project? project).getD []
  (⟨project, root, g.visited, g.parsed, g.failures, g.remarks.length,
    (Remark.resolvedSince old g.remarks).length⟩, (store.replaceProject project g.remarks).2)

def saveStore (e : Engine) (obstacle : Store.Obstacle) (store : Store) (disk : Disk) :
    Noted (Except ScanError Unit × Disk) :=
  match store.saveUnder obstacle disk e.storePath with
  | (.ok (), disk) => do
      Noted.addAll (store.saveNotes e.storePath)
      pure (.ok (), disk)
  | (.error cause, disk) => pure (.error (.store cause), disk)

/-- Load the store, change it and save it. -/
def revise {α : Type} (e : Engine) (obstacle : Store.Obstacle) (disk : Disk)
    (change : Store -> α × Store) : Noted (Except ScanError α × Disk) := do
  match <- e.loadStore disk with
  | .error cause => pure (.error cause, disk)
  | .ok store =>
      let (answer, store) := change store
      match <- e.saveStore obstacle store disk with
      | (.ok (), disk) => pure (.ok answer, disk)
      | (.error cause, disk) => pure (.error cause, disk)

/-- Scan a project under a name and replace its remarks. -/
def scanAs (e : Engine) (obstacle : Store.Obstacle) (disk : Disk) (root : Path)
    (project : String) : Noted (Except ScanError Report × Disk) := do
  match <- e.gather disk root project with
  | .error cause => pure (.error cause, disk)
  | .ok gathered => e.revise obstacle disk (conclude root project gathered)

/-- The name of a project; one without a name is called like its root. -/
def nameOf (root : Path) (name : String) : String :=
  if name.toList.all Text.isBlank then
    match root.fileName? with
    | some bytes => Text.shown bytes
    | none => root.display
  else name

def eventOf (root : Path) (project : String) : Except ScanError Report -> ScanEvent
  | .ok report => .completed project root report.remarks report.resolved
  | .error cause => .failed project root cause.message

def noteScan (project : String) : Except ScanError Report -> Noted Unit
  | .ok r =>
      Noted.info .scan <|
        s!"completed: {project}: {r.remarks} annotations in {r.parsed} files, " ++
          s!"{r.resolved} resolved, {r.failures} failures (0ns)"
  | .error cause => Noted.error .scan s!"{project} failed: {cause}"

def noteSent (e : Engine) (event : ScanEvent) : Noted Unit :=
  match e.audience with
  | none => pure ()
  | some 0 => Noted.debug .broadcast s!"dropped: no subscribers for {event.details}"
  | some n => Noted.debug .broadcast s!"sent: to {n} subscribers"

def runScanUnder (e : Engine) (obstacle : Store.Obstacle) (disk : Disk) (root : Path)
    (name : String) : Noted (Pass Report) := do
  let project := nameOf root name
  let (outcome, disk) <- e.scanAs obstacle disk root project
  let event := eventOf root project outcome
  noteScan project outcome
  e.noteSent event
  pure ⟨outcome, disk, [event]⟩

def runScan (e : Engine) (disk : Disk) (root : Path) (name : String) : Noted (Pass Report) :=
  e.runScanUnder .none disk root name

/-- Take a project out of the store under an obstacle; say whether it was there. -/
def removeProjectUnder (e : Engine) (obstacle : Store.Obstacle) (disk : Disk) (name : String) :
    Noted (Pass Bool) := do
  match <- e.loadStore disk with
  | .error cause => pure ⟨.error cause, disk, []⟩
  | .ok store =>
      match store.removeProject name with
      | (none, _) => pure ⟨.ok false, disk, []⟩
      | (some _, store) =>
          match <- e.saveStore obstacle store disk with
          | (.error cause, disk) => pure ⟨.error cause, disk, []⟩
          | (.ok (), disk) => do
              Noted.info .scan s!"removed: {name}"
              e.noteSent (.removed name)
              pure ⟨.ok true, disk, [.removed name]⟩

/-- Take a project out of the store; say whether it was there. -/
def removeProject (e : Engine) (disk : Disk) (name : String) : Noted (Pass Bool) :=
  e.removeProjectUnder .none disk name

/-- What came of one project of a batch. -/
structure Outcome where
  name : String
  root : Path
  result : Except ScanError Report

/-- Scan projects one after another; one that fails does not stop the others. -/
def runBatch (e : Engine) (disk : Disk) :
    List (String × Path) -> Noted (List Outcome × Disk × List ScanEvent)
  | [] => pure ([], disk, [])
  | (name, root) :: rest => do
      let pass <- e.runScan disk root name
      let (outcomes, disk, events) <- e.runBatch pass.disk rest
      pure (⟨name, root, pass.outcome⟩ :: outcomes, disk, pass.events ++ events)

def scanAll (e : Engine) (disk : Disk) (tracked : Except RegistryError (List (String × Path))) :
    Noted (Pass (List Outcome)) :=
  match tracked with
  | .error cause => pure ⟨.error (.registry cause), disk, []⟩
  | .ok projects => do
      Noted.info .scan s!"batch: {projects.length} projects"
      let (outcomes, disk, events) <- e.runBatch disk projects
      pure ⟨.ok outcomes, disk, events⟩

end Engine

end TodoIndex
