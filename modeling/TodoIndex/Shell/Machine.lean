import TodoIndex.Shell.Pattern
import TodoIndex.Shell.Printing
import TodoIndex.Shell.Tool

/-!
# Running scripts

A script runs on a disk of its own and against a clock that only sleeping and waiting move.  A
command in the background runs at once, but its time counts from its begin on; whoever reads
what the script prints waits for it as well.  A script that does not end in its time, or goes
on for too many steps, is late.
-/

namespace TodoIndex

namespace Shell

/-- Why commands do not simply go on. -/
inductive Flow where
  | leave
  /-- A signal ends the script. -/
  | killed (signal : Nat)
  | late
  | breakOut (loops : Nat)
  | nextRound (loops : Nat)
  /-- The function ends. -/
  | comeBack
  deriving DecidableEq, Repr, Inhabited

/-- Where a stream comes from or goes to. -/
inductive Stream where
  | nowhere
  | text (number : Nat)
  /-- One of the texts that are being read. -/
  | source (number : Nat)
  | file (path : Path)
  deriving DecidableEq, Inhabited

/-- A command in the background. -/
structure Job where
  number : Nat
  ending : Nat
  status : Nat
  /-- Whether it can still print where the script prints. -/
  prints : Bool
  deriving DecidableEq, Inhabited

/-- The state of a shell. -/
structure Machine where
  disk : Disk
  /-- The texts that stand in the script. -/
  here : List Word
  bindings : Arithmetic.Variables
  functions : List (List Char × Command)
  name : List Char
  arguments : List (List Char)
  status : Nat
  clock : Nat
  limit : Nat
  jobs : List Job
  /-- What was written, each text in pieces, the last one first. -/
  written : List (List (List Char))
  /-- What is left to be read. -/
  sources : List (List Char)
  streams : List (Nat × Stream)
  /-- Whether a command that fails ends the shell. -/
  strict : Bool
  /-- The line of the command that runs. -/
  line : Nat
  /-- What is done on signals, by their numbers; zero stands for the end of the script. -/
  traps : List (Nat × List Char)
  deriving Inhabited

abbrev Act := ExceptT Flow (StateM Machine)

namespace Machine

/-- The number of the script's own process. -/
def ownNumber : Nat := 4711

def textOf (m : Machine) (number : Nat) : List Char :=
  ((m.written[number]?).getD []).reverse.flatten

end Machine

namespace Act

def write (stream : Nat) (s : List Char) : Act Unit := do
  let m ← get
  match m.streams.lookup stream with
  | some (.text number) =>
      set { m with written := m.written.modify number (s :: ·) }
  | some (.file path) =>
      let old := match m.disk.contents path with
        | .ok content => content
        | .error _ => []
      set { m with disk := (m.disk.writeFile path (old ++ bytesOf s)).2 }
  | _ => pure ()

def print (s : List Char) : Act Unit :=
  write 1 s

def setStatus (code : Nat) : Act Unit :=
  modify fun m => { m with status := code }

/-- Complain in the name of the script, with the line of the command that runs. -/
def complain (s : List Char) : Act Unit := do
  let m ← get
  write 2 (m.name ++ ": ".toList ++ (toString m.line).toList ++ ": ".toList ++ s ++ ['\n'])

def input : Act (List Char) := do
  let m ← get
  match m.streams.lookup 0 with
  | some (.source number) => return (m.sources[number]?).getD []
  | _ => return []

def setInput (s : List Char) : Act Unit := do
  let m ← get
  match m.streams.lookup 0 with
  | some (.source number) => set { m with sources := m.sources.set number s }
  | _ => pure ()

/-- Let time pass. -/
def wait (until_ : Nat) : Act Unit := do
  let m ← get
  let clock := max m.clock until_
  set { m with clock }
  if m.limit <= clock then throw .late

def withStreams (streams : List (Nat × Stream)) (act : Act Unit) : Act Unit := do
  let before := (← get).streams
  modify fun m => { m with streams := streams ++ before }
  try act finally modify fun m => { m with streams := before }

def newText : Act Nat := do
  let m ← get
  set { m with written := m.written ++ [[]] }
  return m.written.length

/-- Begin a text that is to be read. -/
def newSource (s : List Char) : Act Nat := do
  let m ← get
  set { m with sources := m.sources ++ [s] }
  return m.sources.length

/-- Run a step in a subshell: what it does to variables is forgotten, and if it leaves, only
the subshell ends. -/
def inSubshell (act : Act Unit) : Act Unit := do
  let before ← get
  let restore : Act Unit := modify fun m => { m with
    bindings := before.bindings, functions := before.functions,
    arguments := before.arguments, streams := before.streams, strict := before.strict,
    jobs := before.jobs ++ m.jobs.drop before.jobs.length,
    disk := { m.disk with here := before.disk.here } }
  try
    act
    restore
  catch
    | .killed signal => throw (.killed signal)
    | .late => throw .late
    | _ => restore

def setVariable (name value : List Char) : Act Unit :=
  modify fun m =>
    { m with bindings := (name, value) :: m.bindings.filter (·.1 != name) }

end Act

/-- A character of a word that is filled in. -/
inductive Mark where
  | char (c : Char) (splits quoted : Bool)
  /-- Here one word ends and another begins. -/
  | stop
  /-- Something quoted stands here, even if it is empty. -/
  | void
  deriving DecidableEq, Repr, Inhabited

namespace Mark

/-- The characters of a word that is not split. -/
def text : List Mark -> List Char
  | [] => []
  | .char c _ _ :: marks => c :: text marks
  | .stop :: marks => ' ' :: text marks
  | .void :: marks => text marks

def pattern : List Mark -> List (Char × Bool)
  | [] => []
  | .char c _ quoted :: marks => (c, quoted) :: pattern marks
  | .stop :: marks => (' ', true) :: pattern marks
  | .void :: marks => pattern marks

/-- Words as far as they are split: the word that is growing, if there is one, comes first. -/
def fields (separators : List Char) : (growing : Option (List Char)) -> List Mark ->
    List (List Char)
  | growing, [] => growing.toList
  | growing, .void :: marks => fields separators (some (growing.getD [])) marks
  | growing, .stop :: marks => growing.toList ++ fields separators none marks
  | growing, .char c splits _ :: marks =>
      if splits && separators.contains c then
        if " \t\n".toList.contains c then growing.toList ++ fields separators none marks
        else growing.getD [] :: fields separators none marks
      else fields separators (some (growing.getD [] ++ [c])) marks

def ofText (quoted : Bool) (s : List Char) : List Mark :=
  s.map fun c => .char c (!quoted) quoted

end Mark

def signalOf? (name : List Char) : Option Nat :=
  match String.ofList (if "SIG".toList.isPrefixOf name then name.drop 3 else name) with
  | "HUP" => some 1
  | "INT" => some 2
  | "QUIT" => some 3
  | "ABRT" => some 6
  | "KILL" => some 9
  | "USR1" => some 10
  | "SEGV" => some 11
  | "USR2" => some 12
  | "PIPE" => some 13
  | "ALRM" => some 14
  | "TERM" => some 15
  | s => (Arithmetic.natural? 10 s.toList).bind fun n => if s.isEmpty then none else some n

def holdsOf (disk : Disk) (sign : String) (s : List Char) : Option Bool :=
  let path : Path := ⟨bytesOf s⟩
  let entry := disk.entry true path
  match sign with
  | "-n" => some (!s.isEmpty)
  | "-z" => some s.isEmpty
  | "-e" => some (entry matches .ok _)
  | "-f" => some (entry matches .ok (.file ..))
  | "-d" => some (entry matches .ok (.folder _))
  | "-s" => some (match entry with
      | .ok (.file content _) => !content.isEmpty
      | .ok _ => true
      | .error _ => false)
  | "-r" => some (entry matches .ok _)
  | "-w" => some (entry matches .ok _)
  | "-x" => some (match entry with
      | .ok (.file _ executable) => executable
      | .ok _ => true
      | .error _ => false)
  | "-L" => some (disk.entry false path matches .ok (.link _))
  | "-h" => some (disk.entry false path matches .ok (.link _))
  | _ => none

/-- Whether a condition on two texts holds. -/
def holdsBetween (sign : String) (a b : List Char) : Option Bool :=
  let number (s : List Char) := (Arithmetic.integer? (s.filter (· != ' '))).getD 0
  match sign with
  | "=" => some (a = b)
  | "==" => some (a = b)
  | "!=" => some (a != b)
  | "-eq" => some (number a = number b)
  | "-ne" => some (number a != number b)
  | "-lt" => some (number a < number b)
  | "-le" => some (number a <= number b)
  | "-gt" => some (number b < number a)
  | "-ge" => some (number b <= number a)
  | _ => none

def holds (disk : Disk) : (fuel : Nat) -> List (List Char) -> Option Bool
  | 0, _ => none
  | _, [] => some false
  | _, [s] => some (!s.isEmpty)
  | fuel + 1, ['!'] :: condition => (holds disk fuel condition).map (!·)
  | _, [sign, s] => holdsOf disk (String.ofList sign) s
  | fuel + 1, first :: second :: third :: rest =>
      match holdsBetween (String.ofList second) first third, rest with
      | some value, [] => some value
      | some value, connective :: others => joined disk fuel value connective others
      | none, _ =>
          match holdsOf disk (String.ofList first) second with
          | some value => joined disk fuel value third rest
          | none => none
where
  /-- A condition behind another one. -/
  joined (disk : Disk) (fuel : Nat) (value : Bool) (connective : List Char)
      (others : List (List Char)) : Option Bool :=
    match String.ofList connective with
    | "-a" => (holds disk fuel others).map (value && ·)
    | "-o" => (holds disk fuel others).map (value || ·)
    | _ => none

/-- The next line of a text, whether it was ended, and what follows it. -/
def nextLine (raw : Bool) : List Char -> List Char × Bool × List Char
  | [] => ([], false, [])
  | '\n' :: s => ([], true, s)
  | '\\' :: c :: s =>
      let (line, ended, rest) := nextLine raw s
      if raw then
        if c = '\n' then (['\\'], true, s) else ('\\' :: c :: line, ended, rest)
      else if c = '\n' then (line, ended, rest)
      else (c :: line, ended, rest)
  | c :: s =>
      let (line, ended, rest) := nextLine raw s
      (c :: line, ended, rest)

/-- The words of a line for so many names; the last one gets all that is left. -/
def distribute (separators : List Char) : (names : Nat) -> List Char -> List (List Char)
  | 0, _ => []
  | 1, s =>
      let isBlank := fun c : Char => separators.contains c && " \t\n".toList.contains c
      [((s.dropWhile isBlank).reverse.dropWhile isBlank).reverse]
  | names + 1, s =>
      let isBlank := fun c : Char => separators.contains c && " \t\n".toList.contains c
      let s := s.dropWhile isBlank
      let word := s.takeWhile (!separators.contains ·)
      let rest := (s.drop word.length).dropWhile isBlank
      let rest := match rest with
        | c :: more => if separators.contains c then more else c :: more
        | [] => []
      word :: distribute separators names rest

/-- The milliseconds that an argument of `sleep` stands for. -/
def millisecondsOf (s : List Char) : Nat :=
  let whole := s.takeWhile isDigit
  let rest := s.drop whole.length
  let (fraction, unit) := match rest with
    | '.' :: more => (more.takeWhile isDigit, more.dropWhile isDigit)
    | more => ([], more)
  let factor := match unit with
    | 'm' :: _ => 60
    | 'h' :: _ => 3600
    | 'd' :: _ => 86400
    | _ => 1
  let thousandths := (fraction ++ ['0', '0', '0']).take 3
  (Tool.naturalOf whole * 1000 + Tool.naturalOf thousandths) * factor

def parameterOf (m : Machine) (name : List Char) : Option (List Char) :=
  match name with
  | ['#'] => some (toString m.arguments.length).toList
  | ['?'] => some (toString m.status).toList
  | ['$'] => some (toString Machine.ownNumber).toList
  | ['!'] => m.jobs.getLast?.map fun job => (toString job.number).toList
  | ['-'] => some (if m.strict then ['e'] else [])
  | ['*'] => some (List.intercalate [' '] m.arguments)
  | ['@'] => some (List.intercalate [' '] m.arguments)
  | ['0'] => some m.name
  | c :: _ =>
      if isDigit c then m.arguments[Tool.naturalOf name - 1]? else m.bindings.lookup name
  | [] => none

/-- A number that an argument of a built-in command gives, or another one. -/
def countOr (default : Nat) : List (List Char) -> Nat
  | s :: _ => Tool.naturalOf s
  | [] => default

def sendSignal (signal : Nat) (target : List Char) : Act Unit := do
  let m ← get
  let number := Tool.naturalOf (target.filter (· != '-'))
  if number = Machine.ownNumber || target = ['0'] then
    if signal != 0 then throw (.killed signal) else Act.setStatus 0
  else if m.jobs.any (·.number = number) then
    if signal != 0 then
      let stop (job : Job) : Job :=
        if job.number = number then
          { job with ending := min job.ending m.clock, status := 128 + signal }
        else job
      set { m with status := 0, jobs := m.jobs.map stop }
    else Act.setStatus 0
  else
    Act.complain ("kill: No such process".toList)
    Act.setStatus 1

def trapNumber? (name : List Char) : Option Nat :=
  if name = "EXIT".toList || name = ['0'] then some 0 else signalOf? name

/-- Set what is done on signals; a hyphen sets what is usual. -/
def setTraps (arguments : List (List Char)) : Act Unit := do
  let action := arguments.headD []
  let numbers := (arguments.drop 1).filterMap trapNumber?
  let m ← get
  let kept := m.traps.filter fun (number, _) => !numbers.contains number
  let added := if action = ['-'] then [] else numbers.map fun number => (number, action)
  set { m with traps := added ++ kept, status := 0 }

/-- The signal and the target that arguments of `kill` name. -/
def signalAndTarget? : List (List Char) -> Option (Nat × List Char)
  | ['-', 's'] :: signal :: target :: _ => some ((signalOf? signal).getD 15, target)
  | ('-' :: signal) :: target :: _ => some ((signalOf? signal).getD 15, target)
  | target :: _ => some (15, target)
  | [] => none

/-- What is to be done instead when the script sends itself a signal. -/
def trapped? (m : Machine) (name : String) (arguments : List (List Char)) : Option (List Char) :=
  match name, signalAndTarget? arguments with
  | "kill", some (signal, target) =>
      if signal != 0 && signal != 9 && Tool.naturalOf target = Machine.ownNumber then
        m.traps.lookup signal
      else none
  | _, _ => none

def waitFor : List (List Char) -> Act Unit
  | [] => do
      Act.wait (((← get).jobs.map (·.ending)).foldl max 0)
      Act.setStatus 0
  | [number] => do
      match (← get).jobs.find? (·.number = Tool.naturalOf number) with
      | some job =>
          Act.wait job.ending
          Act.setStatus job.status
      | none => Act.setStatus 127
  | _ :: numbers => waitFor numbers

def setOptions : List (List Char) -> Act Unit
  | [] => pure ()
  | argument :: arguments => do
      if argument = "--".toList then modify fun m => { m with arguments }
      else
        match argument with
        | '-' :: letters =>
            if letters.contains 'e' then modify fun m => { m with strict := true }
            setOptions arguments
        | '+' :: letters =>
            if letters.contains 'e' then modify fun m => { m with strict := false }
            setOptions arguments
        | _ => modify fun m => { m with arguments := argument :: arguments }

/-- Set variables as `name=value` says. -/
def setAll : List (List Char) -> Act Unit
  | [] => pure ()
  | argument :: arguments => do
      match assignmentName? argument with
      | some (name, value) => Act.setVariable name value
      | none => pure ()
      setAll arguments

def readLine (arguments : List (List Char)) : Act Unit := do
  let (raw, names) := match arguments with
    | ['-', 'r'] :: names => (true, names)
    | names => (false, names)
  let (line, ended, rest) := nextLine raw (← Act.input)
  Act.setInput rest
  let separators := ((← get).bindings.lookup "IFS".toList).getD " \t\n".toList
  let words := distribute separators names.length line
  for (name, word) in names.zip words do
    Act.setVariable name word
  Act.setStatus (if ended then 0 else 1)

/-- Go to another directory. -/
def changeFolder (arguments : List (List Char)) : Act Unit := do
  let m ← get
  let target := arguments.headD []
  match m.disk.find true ⟨bytesOf target⟩ with
  | .ok (.found place (.folder _)) =>
      set { m with disk := { m.disk with here := place }, status := 0 }
  | _ =>
      Act.complain ("cd: can't cd to ".toList ++ target)
      Act.setStatus 2

/-- Run a built-in command that needs no other command; say whether it is one. -/
def runSimpleBuiltIn (name : String) (arguments : List (List Char)) : Act Bool := do
  let m ← get
  let code := countOr m.status arguments % 256
  match name with
  | ":" | "true" | "umask" | "ulimit" =>
      Act.setStatus 0
      return true
  | "trap" =>
      setTraps arguments
      return true
  | "false" =>
      Act.setStatus 1
      return true
  | "echo" =>
      Act.print (Printing.echo arguments)
      Act.setStatus 0
      return true
  | "printf" =>
      let arguments := if arguments.head? = some "--".toList then arguments.drop 1 else arguments
      Act.print (Printing.printf (arguments.headD []) (arguments.drop 1))
      Act.setStatus 0
      return true
  | "exit" =>
      match arguments with
      | argument :: _ =>
          if argument.isEmpty || !argument.all isDigit then
            Act.complain ("exit: Illegal number: ".toList ++ argument)
            Act.setStatus 2
          else Act.setStatus code
      | [] => Act.setStatus code
      throw .leave
  | "return" =>
      Act.setStatus code
      throw .comeBack
  | "break" => throw (.breakOut (max 1 (countOr 1 arguments)))
  | "continue" => throw (.nextRound (max 1 (countOr 1 arguments)))
  | "shift" =>
      set { m with arguments := m.arguments.drop (countOr 1 arguments), status := 0 }
      return true
  | "set" =>
      setOptions arguments
      Act.setStatus 0
      return true
  | "export" | "readonly" | "local" =>
      setAll arguments
      Act.setStatus 0
      return true
  | "unset" =>
      set { m with bindings := m.bindings.filter fun (x, _) => !arguments.contains x, status := 0 }
      return true
  | "pwd" =>
      Act.print (charsOf (Disk.pathOf m.disk.here).bytes ++ ['\n'])
      Act.setStatus 0
      return true
  | "cd" =>
      changeFolder arguments
      return true
  | "sleep" =>
      Act.wait (arguments.foldl (fun time argument => time + millisecondsOf argument) m.clock)
      Act.setStatus 0
      return true
  | "wait" =>
      waitFor arguments
      return true
  | "read" =>
      readLine arguments
      return true
  | "kill" =>
      match signalAndTarget? arguments with
      | some (signal, target) => sendSignal signal target
      | none => Act.setStatus 2
      return true
  | "test" | "[" =>
      let condition := if name = "[" then arguments.dropLast else arguments
      match holds m.disk (condition.length + 1) condition with
      | some value => Act.setStatus (if value then 0 else 1)
      | none =>
          Act.complain (name.toList ++ ": unexpected operator".toList)
          Act.setStatus 2
      return true
  | _ => return false

def runTool (tool : Tool) (arguments : List (List Char)) : Act Unit := do
  let finish := tool (← get).disk arguments (← Act.input)
  Act.setInput []
  Act.print finish.output
  Act.write 2 finish.errors
  Act.setStatus finish.code

/-- A file name as it is called: the last part of a path to the system's own tools. -/
def toolName (name : List Char) : String :=
  let base := (name.reverse.takeWhile (· != '/')).reverse
  let folder := String.ofList (name.take (name.length - base.length))
  if ["", "/bin/", "/usr/bin/"].contains folder then String.ofList base else String.ofList name

def hasOutput (word : Word) : Bool :=
  word.any fun piece => piece matches .output ..

def isBuiltIn (name : String) : Bool :=
  [":", "true", "false", "umask", "ulimit", "trap", "echo", "printf", "exit", "return", "break",
    "continue", "shift", "set", "export", "readonly", "local", "unset", "pwd", "cd", "wait", "read",
    "kill", "test", "[", "command", "exec", "eval", ".", "type"].contains name

def placeOf? (m : Machine) (name : List Char) : Option (List Char) :=
  if (m.functions.lookup name).isSome || isBuiltIn (String.ofList name) then some name
  else if (Tool.ofName? (String.ofList name)).isSome || name = "sleep".toList then
    some ("/usr/bin/".toList ++ name)
  else none

/-- The streams that lead to where the script prints, after redirections. -/
def printing (streams : List (Nat × Bool)) : List Redirect -> List (Nat × Bool)
  | [] => streams
  | .write stream _ :: more | .append stream _ :: more | .input stream _ :: more
  | .here stream _ :: more => printing ((stream, false) :: streams) more
  | .copy stream source :: more =>
      let kept := match source with
        | [.plain digits _] => (streams.lookup (Tool.naturalOf digits)).getD false
        | _ => false
      printing ((stream, kept) :: streams) more

def redirectsOf : Command -> List Redirect
  | .simple _ _ _ redirects => redirects
  | .redirected _ redirects => redirects
  | .pipe _ [.simple _ _ _ redirects] => redirects
  | .pipe _ [.redirected _ redirects] => redirects
  | _ => []

/-- Whether a command that runs in the background can still print where the script prints. -/
def printsOn (m : Machine) (body : Command) : Bool :=
  let leads (stream : Nat) : Bool := match m.streams.lookup stream with
    | some (.text _) => true
    | _ => false
  let after := printing [(1, leads 1), (2, leads 2)] (redirectsOf body)
  (after.lookup 1).getD false || (after.lookup 2).getD false

/-- What is done where a command fails that nobody looks at. -/
def checkStrict (tested : Bool) : Act Unit := do
  let m ← get
  if m.strict && !tested && m.status != 0 then throw .leave

mutual

def expand : (fuel : Nat) -> Word -> Act (List Mark)
  | 0, _ => throw .late
  | _, [] => return []
  | fuel + 1, piece :: pieces => do
      let marks ← expandPiece fuel piece
      return marks ++ (← expand fuel pieces)

def expandPiece : (fuel : Nat) -> Piece -> Act (List Mark)
  | 0, _ => throw .late
  | _, .plain s quoted =>
      return (if quoted then [.void] else []) ++ s.map fun c => .char c false quoted
  | _, .parameter ['@'] .keep true => do
      let arguments := (← get).arguments
      return (arguments.map fun s => .void :: Mark.ofText true s).intersperse [.stop] |>.flatten
  | _, .parameter ['@'] .keep false => do
      let arguments := (← get).arguments
      return (arguments.map (Mark.ofText false)).intersperse [.stop] |>.flatten
  | fuel + 1, .parameter name change quoted => do
      let value := parameterOf (← get) name
      expandChange fuel name value change quoted
  | fuel + 1, .output body quoted => do
      let number ← Act.newText
      Act.inSubshell (Act.withStreams [(1, .text number)] (run false fuel body))
      let s := (← get).textOf number
      return Mark.ofText quoted (s.reverse.dropWhile (· = '\n')).reverse
  | fuel + 1, .number expression quoted => do
      let s := Mark.text (← expand fuel expression)
      match Arithmetic.value? (← get).bindings s with
      | some (n, assigned) =>
          for (name, value) in assigned.reverse do
            Act.setVariable name value
          return Mark.ofText quoted (toString n).toList
      | none =>
          Act.complain ("arithmetic expression: ".toList ++ s)
          Act.setStatus 2
          throw .leave

def expandChange : (fuel : Nat) -> (name : List Char) -> (value : Option (List Char)) ->
    Change -> (quoted : Bool) -> Act (List Mark)
  | 0, _, _, _, _ => throw .late
  | fuel + 1, name, value, change, quoted => do
      let isThere (colon : Bool) : Bool := match value with
        | none => false
        | some s => !(colon && s.isEmpty)
      let own := Mark.ofText quoted (value.getD [])
      match change with
      | .keep => return own
      | .length => return Mark.ofText quoted (toString (value.getD []).length).toList
      | .default colon word => if isThere colon then return own else expand fuel word
      | .replace colon word => if isThere colon then expand fuel word else return []
      | .assign colon word =>
          if isThere colon then return own
          else
            let marks ← expand fuel word
            Act.setVariable name (Mark.text marks)
            return Mark.ofText quoted (Mark.text marks)
      | .fail colon word =>
          if isThere colon then return own
          else
            let reason := Mark.text (← expand fuel word)
            let shown := if reason.isEmpty then "parameter not set".toList else reason
            Act.complain (name ++ ": ".toList ++ shown)
            Act.setStatus 2
            throw .leave
      | .dropLead longest word =>
          let pattern := Mark.pattern (← expand fuel word)
          let kept := (Pattern.ofMarked (pattern.length + 1) pattern).dropLead longest
            (value.getD [])
          return Mark.ofText quoted kept
      | .dropTail longest word =>
          let pattern := Mark.pattern (← expand fuel word)
          let kept := (Pattern.ofMarked (pattern.length + 1) pattern).dropTail longest
            (value.getD [])
          return Mark.ofText quoted kept

def expandAll : (fuel : Nat) -> List Word -> Act (List (List Char))
  | 0, _ => throw .late
  | _, [] => return []
  | fuel + 1, word :: words => do
      let marks ← expand fuel word
      let separators := ((← get).bindings.lookup "IFS".toList).getD " \t\n".toList
      return Mark.fields separators none marks ++ (← expandAll fuel words)

/-- The streams that a redirection leads to; it can fail. -/
def redirect : (fuel : Nat) -> Redirect -> Act (Option (Nat × Stream))
  | 0, _ => throw .late
  | fuel + 1, .input stream file => do
      let name := Mark.text (← expand fuel file)
      if name = "/dev/null".toList then return some (stream, .nowhere)
      else
        match (← get).disk.contents ⟨bytesOf name⟩ with
        | .ok content => return some (stream, .source (← Act.newSource (charsOf content)))
        | .error .isDirectory => return some (stream, .nowhere)
        | .error e =>
            let reason := match e with
              | .notFound => "No such file".toList
              | e => Tool.reasonOf e
            Act.complain ("cannot open ".toList ++ name ++ ": ".toList ++ reason)
            return none
  | fuel + 1, .write stream file => do
      let name := Mark.text (← expand fuel file)
      if name = "/dev/null".toList then return some (stream, .nowhere)
      else if name = "/dev/stderr".toList then
        return ((← get).streams.lookup 2).map fun s => (stream, s)
      else
        match (← get).disk.writeFile ⟨bytesOf name⟩ [] with
        | (.ok (), disk) =>
            modify fun m => { m with disk }
            return some (stream, .file ⟨bytesOf name⟩)
        | (.error e, _) =>
            Act.complain ("cannot create ".toList ++ name ++ ": ".toList ++ Tool.reasonOf e)
            return none
  | fuel + 1, .append stream file => do
      let name := Mark.text (← expand fuel file)
      if name = "/dev/null".toList then return some (stream, .nowhere)
      else return some (stream, .file ⟨bytesOf name⟩)
  | fuel + 1, .copy stream source => do
      let name := Mark.text (← expand fuel source)
      if name = ['-'] then return some (stream, .nowhere)
      else return some (stream, ((← get).streams.lookup (Tool.naturalOf name)).getD .nowhere)
  | fuel + 1, .here stream number => do
      let word := ((← get).here[number]?).getD []
      let s := Mark.text (← expand fuel word)
      return some (stream, .source (← Act.newSource s))

/-- Run a step with redirected streams. -/
def redirected (act : Act Unit) : (fuel : Nat) -> List Redirect -> Act Unit
  | 0, _ => throw .late
  | _, [] => act
  | fuel + 1, first :: more => do
      match ← redirect fuel first with
      | some stream => Act.withStreams [stream] (redirected act fuel more)
      | none => Act.setStatus 2

/-- Redirect streams for all commands that follow. -/
def redirectForGood : (fuel : Nat) -> List Redirect -> Act Unit
  | 0, _ => throw .late
  | _, [] => Act.setStatus 0
  | fuel + 1, first :: more => do
      match ← redirect fuel first with
      | some stream =>
          modify fun m => { m with streams := stream :: m.streams }
          redirectForGood fuel more
      | none => Act.setStatus 2

def runText : (fuel : Nat) -> List Char -> Act Unit
  | 0, _ => throw .late
  | fuel + 1, s => do
      match Script.ofText? s with
      | some script =>
          let outer := (← get).here
          modify fun m => { m with here := script.texts }
          run false fuel script.body
          modify fun m => { m with here := outer }
      | none => Act.setStatus 2

/-- Run a command with its arguments. -/
def call : (fuel : Nat) -> (name : List Char) -> List (List Char) -> Act Unit
  | 0, _, _ => throw .late
  | fuel + 1, name, arguments => do
      let m ← get
      match m.functions.lookup name with
      | some body =>
          set { m with arguments }
          try run false fuel body
          catch
            | .comeBack => pure ()
            | flow => throw flow
          modify fun after => { after with arguments := m.arguments }
      | none =>
          let short := toolName name
          match trapped? m short arguments with
          | some action => runText fuel action
          | none =>
              if ← runSimpleBuiltIn short arguments then pure ()
              else callOther fuel short name arguments

/-- Run a command that is neither a function nor a simple built-in command. -/
def callOther : (fuel : Nat) -> (short : String) -> (name : List Char) -> List (List Char) ->
    Act Unit
  | 0, _, _, _ => throw .late
  | fuel + 1, short, name, arguments => do
      match short, arguments with
      | "command", ['-', 'v'] :: wanted :: _ =>
          match placeOf? (← get) wanted with
          | some place =>
              Act.print (place ++ ['\n'])
              Act.setStatus 0
          | none => Act.setStatus 127
      | "command", name :: arguments => call fuel name arguments
      | "exec", name :: arguments =>
          call fuel name arguments
          throw .leave
      | "eval", words => runText fuel (List.intercalate [' '] words)
      | ".", file :: _ =>
          match (← get).disk.contents ⟨bytesOf file⟩ with
          | .ok content => runText fuel (charsOf content)
          | .error _ =>
              Act.complain (".: cannot open ".toList ++ file ++ ": No such file".toList)
              Act.setStatus 2
              throw .leave
      | "sh", ['-', 'c'] :: text :: more =>
          runInner fuel (more.headD (← get).name) (more.drop 1) text
      | "sh", file :: more => callFile fuel file more
      | _, _ =>
          match Tool.ofName? short with
          | some tool => runTool tool arguments
          | none =>
              if name.contains '/' then
                match (← get).disk.entry true ⟨bytesOf name⟩ with
                | .ok (.file _ false) =>
                    Act.complain (name ++ ": Permission denied".toList)
                    Act.setStatus 126
                | _ => callFile fuel name arguments
              else
                Act.complain (name ++ ": not found".toList)
                Act.setStatus 127

def callFile : (fuel : Nat) -> (file : List Char) -> List (List Char) -> Act Unit
  | 0, _, _ => throw .late
  | fuel + 1, file, arguments => do
      match (← get).disk.contents ⟨bytesOf file⟩ with
      | .ok content => runInner fuel file arguments (charsOf content)
      | .error e =>
          let (reason, code) := match e with
            | .notFound => ("not found".toList, 127)
            | _ => ("Permission denied".toList, 126)
          Act.complain (file ++ ": ".toList ++ reason)
          Act.setStatus code

/-- Run a text as a script of its own. -/
def runInner : (fuel : Nat) -> (name : List Char) -> List (List Char) -> List Char -> Act Unit
  | 0, _, _, _ => throw .late
  | fuel + 1, name, arguments, s => do
      let outer := (← get).name
      modify fun m => { m with name }
      Act.inSubshell do
        modify fun m => { m with arguments }
        runText fuel s
      modify fun m => { m with name := outer }

def assignAll : (fuel : Nat) -> List (List Char × Word) -> Act Unit
  | 0, _ => throw .late
  | _, [] => pure ()
  | fuel + 1, (name, word) :: more => do
      let marks ← expand fuel word
      Act.setVariable name (Mark.text marks)
      assignAll fuel more

/-- Run a command; `tested` says whether somebody looks at how it ends. -/
def run (tested : Bool) : (fuel : Nat) -> Command -> Act Unit
  | 0, _ => throw .late
  | _, .skip => pure ()
  | fuel + 1, .simple line assignments words redirects => do
      modify fun m => { m with line }
      match ← expandAll fuel words with
      | [] =>
          redirected (assignAll fuel assignments) fuel redirects
          if !assignments.any (hasOutput ·.2) then Act.setStatus 0
      | [['e', 'x', 'e', 'c']] => redirectForGood fuel redirects
      | name :: arguments =>
          redirected (do
            assignAll fuel assignments
            call fuel name arguments) fuel redirects
      checkStrict tested
  | fuel + 1, .pipe negated stages => do
      runStages fuel stages
      if negated then
        modify fun m => { m with status := if m.status = 0 then 1 else 0 }
      else checkStrict tested
  | fuel + 1, .both first second => do
      run true fuel first
      if (← get).status = 0 then run tested fuel second
  | fuel + 1, .either first second => do
      run true fuel first
      if (← get).status != 0 then run tested fuel second
  | fuel + 1, .sequence first second => do
      run tested fuel first
      run tested fuel second
  | fuel + 1, .background body => do
      let m ← get
      modify fun m => { m with limit := m.clock + 1000000000 }
      Act.inSubshell (Act.withStreams [(0, .nowhere)] (run false fuel body))
      let after ← get
      let job : Job := ⟨Machine.ownNumber + 1 + after.jobs.length, after.clock, after.status,
        printsOn m body⟩
      set { after with
        clock := m.clock, limit := m.limit, status := 0, jobs := after.jobs ++ [job] }
  | fuel + 1, .redirected body redirects => redirected (run tested fuel body) fuel redirects
  | fuel + 1, .subshell body => do
      Act.inSubshell (run tested fuel body)
      checkStrict tested
  | fuel + 1, .branch condition yes no => do
      run true fuel condition
      if (← get).status = 0 then run tested fuel yes
      else
        Act.setStatus 0
        run tested fuel no
  | fuel + 1, .loop negated condition body => do
      Act.setStatus 0
      runLoop negated condition body fuel
  | fuel + 1, .each name words body => do
      let values ← match words with
        | some words => expandAll fuel words
        | none => pure (← get).arguments
      Act.setStatus 0
      runEach name body fuel values
  | fuel + 1, .choice word items => do
      let s := Mark.text (← expand fuel word)
      Act.setStatus 0
      runChoice tested s fuel items
  | _, .define name body => do
      modify fun m => { m with functions := (name, body) :: m.functions, status := 0 }

/-- Run the stages of a pipeline, each on what the one before printed. -/
def runStages : (fuel : Nat) -> List Command -> Act Unit
  | 0, _ => throw .late
  | _, [] => pure ()
  | fuel + 1, [last] => Act.inSubshell (run true fuel last)
  | fuel + 1, stage :: stages => do
      let number ← Act.newText
      let start := (← get).clock
      Act.inSubshell (Act.withStreams [(1, .text number)] (run true fuel stage))
      let m ← get
      let source ← Act.newSource (m.textOf number)
      modify fun after => { after with clock := start }
      Act.withStreams [(0, .source source)] (runStages fuel stages)
      modify fun after => { after with clock := max after.clock m.clock }

/-- Run one round of a loop; say whether the loop goes on. -/
def runRound (body : Command) : (fuel : Nat) -> Act Bool
  | 0 => throw .late
  | fuel + 1 => do
      try
        run false fuel body
        return true
      catch
        | .breakOut 0 => return false
        | .breakOut 1 => return false
        | .breakOut (n + 1) => throw (.breakOut n)
        | .nextRound 0 => return true
        | .nextRound 1 => return true
        | .nextRound (n + 1) => throw (.nextRound n)
        | flow => throw flow

def runLoop (negated : Bool) (condition body : Command) : (fuel : Nat) -> Act Unit
  | 0 => throw .late
  | fuel + 1 => do
      let before := (← get).status
      run true fuel condition
      if ((← get).status = 0) != negated then
        if ← runRound body fuel then runLoop negated condition body fuel
      else Act.setStatus before

/-- Run a loop over words. -/
def runEach (name : List Char) (body : Command) : (fuel : Nat) -> List (List Char) -> Act Unit
  | 0, _ => throw .late
  | _, [] => pure ()
  | fuel + 1, value :: values => do
      Act.setVariable name value
      if ← runRound body fuel then runEach name body fuel values

/-- Run the first command with a pattern that matches. -/
def runChoice (tested : Bool) (s : List Char) : (fuel : Nat) ->
    List (List Word × Command) -> Act Unit
  | 0, _ => throw .late
  | _, [] => pure ()
  | fuel + 1, (patterns, body) :: items => do
      if ← matchesOne s fuel patterns then run tested fuel body
      else runChoice tested s fuel items

def matchesOne (s : List Char) : (fuel : Nat) -> List Word -> Act Bool
  | 0, _ => throw .late
  | _, [] => return false
  | fuel + 1, word :: words => do
      let pattern := Mark.pattern (← expand fuel word)
      if (Pattern.ofMarked (pattern.length + 1) pattern).matchesText s then return true
      else matchesOne s fuel words

end

end Shell

end TodoIndex
