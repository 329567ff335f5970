import TodoIndex.Commandline.Daemon
import TodoIndex.NoteFilter

/-!
# Runs of the program

A run turns the words of a command line, the environment and the disk into an exit code, two
printed texts and a changed disk.
-/

namespace TodoIndex

namespace Commandline

/-- What a run of the program leaves. -/
structure Finish where
  code : Nat
  output : String
  errors : String
  disk : Disk
  deriving Inhabited

namespace Finish

/-- The end of a command, with the notes that are shown. -/
def ofRan (shown : List String) (ran : Ran) : Finish :=
  let failure := match ran.failure with
    | some e => e.lines
    | none => []
  ⟨if ran.failure.isSome then 1 else 0, textOfLines ran.output,
    textOfLines (shown ++ ran.complaints ++ failure), ran.disk⟩

def prints (disk : Disk) (lines : List String) : Finish :=
  ⟨0, textOfLines lines, "", disk⟩

def misused (disk : Disk) (m : Misuse) : Finish :=
  ⟨2, "", textOfLines [s!"error: {m}", "", "For more information, try '--help'."], disk⟩

end Finish

def versionLine : String := "todowatch 0.3.2"

def helpLines : List String :=
  ["Live index of TODO/FIXME annotations across tracked projects",
    "",
    "Usage: todowatch [OPTIONS] <COMMAND>",
    "",
    "Commands:",
    "  init    Write default settings and a sample ignore file",
    "  config  Display active settings",
    "  scan    Rescan tracked projects and update the store",
    "  list    Print stored annotations",
    "  forget  Drop a project's annotations from the store",
    "  daemon  Scan everything, then keep indexes current until interrupted",
    "  help    Print this message or the help of the given subcommand(s)",
    "",
    "Options:",
    "  -c, --config <CONFIG>  Path to custom settings.toml file",
    "  -h, --help             Print help",
    "  -V, --version          Print version"]

/-- Who shows the notes of a command. -/
def surfaceOf : Command -> Surface
  | .daemon => .daemon
  | _ => .once

def finish (environment : Environment) (settings : LoggingSettings) (command : Command)
    (ran : Noted Ran) : Finish :=
  let surface := surfaceOf command
  let (filter, complaints) := NoteFilter.make environment settings surface
  .ofRan (complaints ++ filter.lines surface ran.notes) ran.value

/-- Run a command with settings; `edits` are made while a daemon watches. -/
def perform (run : Helper.Runner) (settings : Settings) (disk : Disk) (edits : List Edit) :
    Command -> Noted Ran
  | .init _ => pure (.done disk [])
  | .config => pure (runConfig settings disk)
  | .scan target => do runScan (<- engineOf run settings disk) disk target
  | .list project => runList settings disk project
  | .forget name => do runForget (<- engineOf run settings disk) disk name
  | .daemon => do Daemon.run (<- engineOf run settings disk) disk edits

def documentPath (environment : Environment) (request : Request) : Path :=
  request.document.getD (Settings.defaultDocument environment)

def answer (run : Helper.Runner) (environment : Environment) (disk : Disk) (edits : List Edit)
    (request : Request) : Finish :=
  let path := documentPath environment request
  match request.command with
  | .init force =>
      finish environment {} request.command (runInit environment disk path force)
  | command =>
      match Settings.load disk environment path with
      | .error e => .ofRan [] (.failed disk (.plain s!"failed to load {path}: {e}"))
      | .ok settings =>
          finish environment settings.logging command (perform run settings disk edits command)

def run (helpers : Helper.Runner) (environment : Environment) (disk : Disk) (edits : List Edit)
    (words : List String) : Finish :=
  match Asked.ofWords environment words with
  | .error m => .misused disk m
  | .ok .version => .prints disk [versionLine]
  | .ok .help => .prints disk helpLines
  | .ok (.run request) => answer helpers environment disk edits request

end Commandline

end TodoIndex
