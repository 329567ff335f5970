import TodoIndex.Helper.Run
import TodoIndex.Shell.Machine

/-!
# Programs

A command names a program: a file that may be run, or one of the tools.  A file is run by the
program that its first line names, and only the shell is known; a file without such a line is
no program.
-/

namespace TodoIndex

namespace Shell

/-- What a command stands for. -/
inductive Program where
  | script (content : List Char) (options : List (List Char))
  | tool (name : String)
  deriving Inhabited

namespace Program

def shells : List String :=
  ["sh", "dash", "bash"]

/-- The tools that are built into the shell and programs of their own as well. -/
def builtIn : List String :=
  ["true", "false", "echo", "printf", "test", "[", "pwd", "sleep", "kill"]

def isTool (name : String) : Bool :=
  (Tool.ofName? name).isSome || builtIn.contains name || shells.contains name

/-- The words of the first line of a script behind its mark. -/
def interpreter? (content : List Char) : Option (List (List Char)) :=
  match content with
  | '#' :: '!' :: s =>
      some (((s.takeWhile (· != '\n')).splitOnP fun c => c = ' ' || c = '\t').filter (!·.isEmpty))
  | _ => none

def ofContent (content : List Char) : Except OsError Program :=
  match interpreter? content with
  | none => .error .noExec
  | some [] => .error .noExec
  | some (path :: options) =>
      let (path, options) :=
        if path = "/usr/bin/env".toList then
          ("/bin/".toList ++ options.headD [], options.drop 1)
        else (path, options)
      let name := toolName path
      if shells.contains name then .ok (.script content options)
      else if isTool name then .ok (.tool name)
      else .error .notFound

def ofCommand (disk : Disk) (command : Path) : Except OsError Program :=
  let name := toolName (charsOf command.bytes)
  if command.isEmpty then .error .notFound
  else if command.bytes.contains Path.slash then
    match disk.entry true command with
    | .ok (.file content executable) =>
        if executable then ofContent (charsOf content) else .error .accessDenied
    | .ok _ => .error .accessDenied
    | .error .notFound => if isTool name then .ok (.tool name) else .error .notFound
    | .error e => .error e
  else if isTool name then .ok (.tool name)
  else .error .notFound

end Program

/-- How many steps a script may take one within the other. -/
def maxSteps : Nat := 200000

namespace Machine

/-- The variables that a script begins with. -/
def firstBindings (disk : Disk) (environment : List (String × String)) :
    List (List Char × List Char) :=
  (environment.map fun (name, value) =>
      (charsOf (Text.bytesOf name), charsOf (Text.bytesOf value))) ++
    [("PATH".toList, "/usr/local/bin:/usr/bin:/bin".toList),
      ("PWD".toList, charsOf (Disk.pathOf disk.here).bytes)]

def start (environment : List (String × String)) (disk : Disk) (limit : Nat) (name : List Char)
    (arguments : List (List Char)) : Machine where
  disk := disk
  here := []
  bindings := firstBindings disk environment
  functions := []
  name := name
  arguments := arguments
  status := 0
  clock := 0
  limit := limit
  jobs := []
  written := [[], []]
  sources := []
  streams := [(0, .nowhere), (1, .text 0), (2, .text 1)]
  strict := false
  line := 1
  traps := []

/-- Whether a script came to no end. -/
def isLate : Except Flow Unit -> Bool
  | .error .late => true
  | _ => false

/-- How a script ended; whoever reads what it prints waits for its background as well. -/
def ending (m : Machine) (flow : Except Flow Unit) : Helper.Ending :=
  let last := ((m.jobs.filter (·.prints)).map (·.ending)).foldl max m.clock
  let output := bytesOf (m.textOf 0)
  let errors := bytesOf (m.textOf 1)
  if isLate flow || m.limit <= last then .timedOut
  else
    match flow with
    | .error (.killed signal) => .killed signal output errors
    | _ => .exited m.status output errors

def finish (m : Machine) (act : Act Unit) : Helper.Ending :=
  let (flow, m) := (act.run).run m
  m.ending flow

end Machine

/-- Run a step until it is done or the script is left. -/
def Act.untilLeft (act : Act Unit) : Act Unit := do
  try act
  catch
    | .killed signal => throw (.killed signal)
    | .late => throw .late
    | _ => pure ()

/-- Do what is to be done at the end of the script, which is not what decides how it ended. -/
def runLast : Act Unit := do
  let m ← get
  match m.traps.lookup 0 with
  | some action =>
      set { m with traps := [] }
      runText maxSteps action
      Act.setStatus m.status
  | none => pure ()

def runScript (environment : List (String × String)) (disk : Disk) (limit : Nat)
    (content name : List Char) (options arguments : List (List Char)) : Helper.Ending :=
  let m := Machine.start environment disk limit name arguments
  match Script.ofText? content with
  | none =>
      .exited 2 [] (bytesOf (name ++ ": Syntax error\n".toList))
  | some script =>
      let m := { m with here := script.texts }
      m.finish do
        Act.untilLeft do
          setOptions (options ++ ["--".toList] ++ arguments)
          run false maxSteps script.body
        runLast

def runProgram (environment : List (String × String)) (disk : Disk) (limit : Nat)
    (command file : List Char) : Program -> Helper.Ending
  | .script content options => runScript environment disk limit content command options [file]
  | .tool name =>
      if Program.shells.contains name then
        match disk.contents ⟨bytesOf file⟩ with
        | .ok content => runScript environment disk limit (charsOf content) file [] []
        | .error _ =>
            let reason := "0: cannot open ".toList ++ file ++ ": No such file\n".toList
            .exited 2 [] (bytesOf (name.toList ++ ": ".toList ++ reason))
      else
        (Machine.start environment disk limit name.toList [file]).finish
          (call maxSteps name.toList [file])

/-- The runner of helper commands: programs for the shell, and its tools.  They see the
environment. -/
def runner (environment : List (String × String)) : Helper.Runner := fun disk command file limit =>
  match Program.ofCommand disk command with
  | .error cause => .notStarted cause
  | .ok program =>
      runProgram environment disk limit (charsOf command.bytes) (charsOf file.bytes) program

end Shell

end TodoIndex
