import TodoIndex.Commandline.Failure
import TodoIndex.Commandline.Request
import TodoIndex.Scan.Engine
import TodoIndex.Settings.Document

/-!
# Commands that end by themselves

Each command reads and changes the disk and prints lines.  A command that fails may have
printed lines and changed the disk before.
-/

namespace TodoIndex

namespace Commandline

/-- What came of a command. -/
structure Ran where
  failure : Option Failure
  output : List String
  /-- The lines that were printed about what went wrong on the way. -/
  complaints : List String
  disk : Disk
  deriving Inhabited

namespace Ran

/-- A command that did what it should and printed lines. -/
def done (disk : Disk) (output : List String) : Ran :=
  ⟨none, output, [], disk⟩

def failed (disk : Disk) (failure : Failure) : Ran :=
  ⟨some failure, [], [], disk⟩

end Ran

/-! ## Settings -/

/-- The name of the sample beside the document of settings. -/
def sampleName (ignoreFile : String) : String :=
  String.ofList (Text.dropLeading '.' ignoreFile.toList) ++ ".sample"

def sampleLines (ignoreFile : String) : List String :=
  let accent := String.singleton (Char.ofNat 96)
  ["# todowatch ignore patterns",
    "#",
    "# Copy this file to a tracked project root as " ++ accent ++ ignoreFile ++ accent ++ ".",
    "# Rules are added to the built-in defaults (.git/, node_modules/, build/, *.log ...).",
    "#",
    "# A trailing slash marks a directory rule, matched against the end of the path:",
    "#   generated/",
    "#   docs/api/",
    "#",
    "# Anything else is a glob matched against the file name only:",
    "#   *.pb.go",
    "#   *_generated.rs"]

/-- Lines as one text; each of them ends in a line feed. -/
def textOfLines (lines : List String) : String :=
  String.join (lines.map (· ++ "\n"))

/-- Whether something is at a path, at the end of all links. -/
def isThere (disk : Disk) (path : Path) : Bool :=
  match disk.entry true path with
  | .ok _ => true
  | .error _ => false

/-- Write the sample into the directory of the document; one that is there stays unless it is
to be replaced. -/
def writeSample (disk : Disk) (document : Path) (ignoreFile : String) (force : Bool) :
    Except OsError Unit × Disk :=
  match document.parent? with
  | none => (.ok (), disk)
  | some folder =>
      let path := folder.join (Path.ofString (sampleName ignoreFile))
      if !force && isThere disk path then (.ok (), disk)
      else disk.writeFile path (Text.bytesOf (textOfLines (sampleLines ignoreFile)))

/-- Write the document of settings where nothing is set, and the sample beside it. -/
def runInit (environment : Environment) (disk : Disk) (path : Path) (force : Bool) : Noted Ran :=
  if !force && isThere disk path then
    pure (.failed disk (.plain "Configuration file already exists. Use --force to overwrite"))
  else
    let settings := Settings.ofEnvironment environment
    match settings.save disk path with
    | (.error fault, disk) => pure (.failed disk (.plain fault.message))
    | (.ok (), disk) => do
        Noted.info .config s!"written: {path}"
        match writeSample disk path settings.ignoreFile force with
        | (.error cause, disk) => pure (.failed disk (.plain cause.message))
        | (.ok (), disk) =>
            pure (.done disk [s!"Created configuration file at: {path}",
              "Edit this file to customize your settings."])

def runConfig (settings : Settings) (disk : Disk) : Ran :=
  .done disk ["Current Configuration:", String.ofList (List.replicate 50 '='),
    String.ofList settings.print]

/-! ## Scans -/

def reportLine (r : Report) : String :=
  s!"{r.project}: {r.remarks} annotations ({r.resolved} resolved) in {r.parsed} files, " ++
    s!"{r.failures} parse failures"

/-- The engine for commands, which tells nobody of its scans. -/
def engineOf (run : Helper.Runner) (settings : Settings) (disk : Disk) : Noted Engine := do
  let readers <- Readers.ofSettings settings disk
  pure (.make settings readers run)

def scanOne (engine : Engine) (disk : Disk) (root : Path) (name : String) : Noted Ran := do
  let pass <- engine.runScan disk root name
  match pass.outcome with
  | .ok report => pure (.done pass.disk [reportLine report])
  | .error e => pure (.failed pass.disk (.ofScan e))

/-- The active project with the first name under which its root is tracked. -/
def activeProject (projectsPath : Path) (projects : Registry.ProjectsDocument) :
    Except Failure (String × Path) :=
  match projects.activeRoot? with
  | none => .error (.plain s!"no active project in {projectsPath}")
  | some root =>
      let names := (projects.tracked.filter fun (_, other) => other.same root).map Prod.fst
      .ok (names.head?.getD "", root)

def trackedProject (projectsPath : Path) (name : String) (projects : Registry.ProjectsDocument) :
    Except Failure (String × Path) :=
  match projects.tracked.lookup name with
  | some root => .ok (name, root)
  | none => .error (.plain s!"project '{name}' is not tracked in {projectsPath}")

def scanChosen (engine : Engine) (disk : Disk)
    (choose : Registry.ProjectsDocument -> Except Failure (String × Path)) : Noted Ran :=
  match Registry.readProjects disk engine.settings.projectsPath with
  | .error e => pure (.failed disk (.ofRegistry e))
  | .ok projects =>
      match choose projects with
      | .error e => pure (.failed disk e)
      | .ok (name, root) => scanOne engine disk root name

/-- The line about a project of a batch: the report, or a complaint. -/
def outcomeLine (o : Engine.Outcome) : Except String String :=
  match o.result with
  | .ok report => .ok (reportLine report)
  | .error e => .error s!"{o.name}: scan failed: {e}"

def batchRan (disk : Disk) (outcomes : List Engine.Outcome) : Ran :=
  let lines := outcomes.map outcomeLine
  let output := lines.filterMap Except.toOption
  let complaints := lines.filterMap fun
    | .error complaint => some complaint
    | .ok _ => none
  let failure :=
    if complaints.isEmpty then none
    else some (.plain s!"{complaints.length} of {outcomes.length} projects failed to scan")
  ⟨failure, output, complaints, disk⟩

def scanTracked (engine : Engine) (disk : Disk) : Noted Ran := do
  let path := engine.settings.projectsPath
  let tracked := (Registry.readProjects disk path).map (·.tracked)
  let pass <- engine.scanAll disk tracked
  match pass.outcome with
  | .error e => pure (.failed pass.disk (.ofScan e))
  | .ok [] => pure (.done pass.disk [s!"No tracked projects in {path}"])
  | .ok outcomes => pure (batchRan pass.disk outcomes)

def runScan (engine : Engine) (disk : Disk) : ScanTarget -> Noted Ran
  | .folder root name => scanOne engine disk root (name.getD "")
  | .active => scanChosen engine disk (activeProject engine.settings.projectsPath)
  | .tracked name => scanChosen engine disk (trackedProject engine.settings.projectsPath name)
  | .all => scanTracked engine disk

/-! ## The store -/

def remarkLine (r : Remark) : String :=
  let function := match r.function with
    | some name => s!" [{name}]"
    | none => ""
  s!"  {r.path}:{r.line}{function} {r.comment}"

def projectLines (name : String) (remarks : List Remark) : List String :=
  s!"{name} ({remarks.length})" :: remarks.map remarkLine

def listLines (store : Store) : (project : Option String) -> Except Failure (List String)
  | some name =>
      match store.project? name with
      | some remarks => .ok (projectLines name remarks)
      | none => .error (.plain s!"no annotations stored for project '{name}'")
  | none =>
      if store.isEmpty then .ok ["No projects scanned yet"]
      else .ok (store.projects.entries.flatMap fun (name, remarks) => projectLines name remarks)

/-- Print the remarks in the store. -/
def runList (settings : Settings) (disk : Disk) (project : Option String) : Noted Ran := do
  let path := settings.storePath
  Noted.addAll (Store.loadNotes disk path)
  match Store.load disk path with
  | .error e => pure (.failed disk (.ofStore e))
  | .ok store =>
      match listLines store project with
      | .ok lines => pure (.done disk lines)
      | .error e => pure (.failed disk e)

/-- Take a project out of the store. -/
def runForget (engine : Engine) (disk : Disk) (name : String) : Noted Ran := do
  let pass <- engine.removeProject disk name
  match pass.outcome with
  | .ok true => pure (.done pass.disk [s!"Removed {name}"])
  | .ok false => pure (.done pass.disk [s!"{name} was not in the store"])
  | .error e => pure (.failed pass.disk (.ofScan e))

end Commandline

end TodoIndex
