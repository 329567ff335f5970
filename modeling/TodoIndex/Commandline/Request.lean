import TodoIndex.Commandline.Words
import TodoIndex.Settings.Variables

/-!
# What is asked for

The words of a command line ask for a command, for the version or for help.  The document of
settings can be named before the command and behind it, where the nearer name counts, or by a
variable of the environment.
-/

namespace TodoIndex

namespace Commandline

/-- What a scan is about. -/
inductive ScanTarget where
  | all
  | tracked (name : String)
  | active
  /-- A directory, under a name if there is one. -/
  | folder (root : Path) (name : Option String)
  deriving DecidableEq, Inhabited

/-- A command with what belongs to it. -/
inductive Command where
  | init (force : Bool)
  | config
  | scan (target : ScanTarget)
  | list (project : Option String)
  | forget (name : String)
  | daemon
  deriving DecidableEq, Inhabited

/-- A command and the document of settings that holds for it. -/
structure Request where
  document : Option Path
  command : Command
  deriving DecidableEq, Inhabited

/-- What a command line asks for. -/
inductive Asked where
  | run (request : Request)
  | version
  | help
  deriving DecidableEq, Inhabited

def documentVariable : String := "TODOWATCH_CONFIG"

def scanTarget (g : Given) : Except Misuse ScanTarget :=
  match g.value? .folder, g.has .active, g.operands.head? with
  | some _, true, _ => .error (.exclusive "--path" "--active")
  | none, true, some _ => .error (.exclusive "--active" "NAME")
  | none, true, none => .ok .active
  | some root, false, name => .ok (.folder (Path.ofString root) name)
  | none, false, some name => .ok (.tracked name)
  | none, false, none => .ok .all

def commandOf (g : Given) : Verb -> Except Misuse Command
  | .init => .ok (.init (g.has .force))
  | .config => .ok .config
  | .scan => .scan <$> scanTarget g
  | .list => .ok (.list (g.value? .project))
  | .forget =>
      match g.operands.head? with
      | some name => .ok (.forget name)
      | none => .error .missingOperand
  | .daemon => .ok .daemon

/-- The document of settings that a level names; the variable names it where the level does
not. -/
def documentAt (preset : Option String) (g : Given) : Except Misuse (Option String) :=
  match g.value? .settings, preset with
  | some path, _ => .ok (some path)
  | none, some "" => .error (.emptyValue .settings)
  | none, other => .ok other

/-- The document of settings: what is named behind the command goes before what is named
before it. -/
def documentOf (preset : Option String) (outer inner : Given) : Except Misuse (Option Path) := do
  let fallback <- documentAt preset outer
  let _ <- documentAt preset inner
  let chosen := ((inner.value? .settings).or (outer.value? .settings)).or fallback
  pure (chosen.map Path.ofString)

def requestOf (preset : Option String) (outer : Given) (verb : Verb) (words : List String) :
    Except Misuse Asked := do
  match <- readWords (some verb) none words .none with
  | .finished inner =>
      let command <- commandOf inner verb
      let document <- documentOf preset outer inner
      pure (.run ⟨document, command⟩)
  | _ => pure .help

def helpAbout : List String -> Except Misuse Asked
  | [] => .ok .help
  | [word] =>
      if word = "help" || (Verb.ofName? word).isSome then .ok .help else .error (.unknown word)
  | _ :: word :: _ => .error (.unknown word)

def Asked.ofWords (environment : Environment) (words : List String) : Except Misuse Asked := do
  match <- readWords none none words .none with
  | .asks .version => pure .version
  | .asks _ => pure .help
  | .finished _ => throw .missingCommand
  | .explanation words => helpAbout words
  | .command outer verb words =>
      requestOf (environment.value? documentVariable) outer verb words

end Commandline

end TodoIndex
