import TodoIndex.Text.Blank

/-!
# The words of a command line

Words before the name of a command and words behind it are read alike: a word is a long option,
a group of one-letter options, or an operand.  An option that takes a value has it in its own
word or in the next one.  Behind the word `--` all words are operands.
-/

namespace TodoIndex

namespace Commandline

/-- An option that can be given. -/
inductive Flag where
  | settings
  | version
  | help
  | force
  | folder
  | active
  | project
  deriving DecidableEq, Repr, Inhabited

namespace Flag

/-- The word of an option, behind two hyphens. -/
def name : Flag -> String
  | .settings => "config"
  | .version => "version"
  | .help => "help"
  | .force => "force"
  | .folder => "path"
  | .active => "active"
  | .project => "project"

/-- The letter of an option, behind one hyphen. -/
def letter? : Flag -> Option Char
  | .settings => some 'c'
  | .version => some 'V'
  | .help => some 'h'
  | .force => some 'f'
  | .project => some 'p'
  | .folder | .active => none

def takesValue : Flag -> Bool
  | .settings | .folder | .project => true
  | .version | .help | .force | .active => false

/-- Whether an option is a request of its own, whatever else is asked for. -/
def isRequest : Flag -> Bool
  | .version | .help => true
  | _ => false

/-- Whether the value of an option may be empty; a path may not. -/
def allowsEmpty : Flag -> Bool
  | .project => true
  | _ => false

end Flag

/-- The name of a command. -/
inductive Verb where
  | init
  | config
  | scan
  | list
  | forget
  | daemon
  deriving DecidableEq, Repr, Inhabited

namespace Verb

def all : List Verb :=
  [.init, .config, .scan, .list, .forget, .daemon]

def name : Verb -> String
  | .init => "init"
  | .config => "config"
  | .scan => "scan"
  | .list => "list"
  | .forget => "forget"
  | .daemon => "daemon"

def ofName? (word : String) : Option Verb :=
  all.find? (·.name = word)

def flags : Verb -> List Flag
  | .init => [.settings, .help, .force]
  | .scan => [.settings, .help, .folder, .active]
  | .list => [.settings, .help, .project]
  | .config | .forget | .daemon => [.settings, .help]

/-- How many operands a command takes at most. -/
def maxOperands : Verb -> Nat
  | .scan | .forget => 1
  | .init | .config | .list | .daemon => 0

end Verb

/-- Where words stand: behind a command, or before any. -/
abbrev Level := Option Verb

namespace Level

/-- The options that may stand at a level. -/
def flags : Level -> List Flag
  | none => [.settings, .version, .help]
  | some verb => verb.flags

/-- How many operands may stand at a level. -/
def maxOperands : Level -> Nat
  | none => 0
  | some verb => verb.maxOperands

end Level

/-- Why words are no request. -/
inductive Misuse where
  | unknown (word : String)
  | missingValue (flag : Flag)
  | emptyValue (flag : Flag)
  | needlessValue (flag : Flag)
  | repeated (flag : Flag)
  | exclusive (one other : String)
  | missingCommand
  | missingOperand
  deriving DecidableEq, Repr, Inhabited

namespace Misuse

def message : Misuse -> String
  | .unknown word => s!"unexpected argument '{word}' found"
  | .missingValue flag => s!"a value is required for '--{flag.name}' but none was supplied"
  | .emptyValue flag => s!"a value is required for '--{flag.name}' but it is empty"
  | .needlessValue flag => s!"unexpected value for '--{flag.name}' found; no more were expected"
  | .repeated flag => s!"the argument '--{flag.name}' cannot be used multiple times"
  | .exclusive one other => s!"the argument '{one}' cannot be used with '{other}'"
  | .missingCommand => "a subcommand is required but none was given"
  | .missingOperand => "a required argument was not provided: <NAME>"

instance : ToString Misuse where
  toString := message

end Misuse

/-- What was given at one level. -/
structure Given where
  flags : List (Flag × String)
  operands : List String
  deriving DecidableEq, Repr, Inhabited

namespace Given

def none : Given :=
  ⟨[], []⟩

/-- The value of an option; one without a value has an empty one. -/
def value? (g : Given) (flag : Flag) : Option String :=
  g.flags.lookup flag

def has (g : Given) (flag : Flag) : Bool :=
  (g.value? flag).isSome

/-- Give an option that has no value. -/
def set (g : Given) (flag : Flag) : Except Misuse Given :=
  if g.has flag then .error (.repeated flag) else .ok { g with flags := g.flags ++ [(flag, "")] }

def put (g : Given) (flag : Flag) (value : String) : Except Misuse Given :=
  if g.has flag then .error (.repeated flag)
  else if value.isEmpty && !flag.allowsEmpty then .error (.emptyValue flag)
  else .ok { g with flags := g.flags ++ [(flag, value)] }

def operand (g : Given) (level : Level) (word : String) : Except Misuse Given :=
  if g.operands.length < level.maxOperands then .ok { g with operands := g.operands ++ [word] }
  else .error (.unknown word)

end Given

/-- What became of one word. -/
inductive Effect where
  | given (g : Given)
  /-- The next word is the value of an option. -/
  | awaits (flag : Flag) (g : Given)
  /-- An option asks for something of its own. -/
  | asks (flag : Flag)
  deriving Inhabited

def meet (flag : Flag) (g : Given) : Except Misuse Effect :=
  if flag.isRequest then .ok (.asks flag) else .given <$> g.set flag

/-- Read a long option, without its hyphens. -/
def readLong (level : Level) (s : List Char) (g : Given) : Except Misuse Effect :=
  let (word, value?) := match Text.splitFirst? '=' s with
    | some (word, value) => (word, some (String.ofList value))
    | none => (s, none)
  match level.flags.find? (·.name.toList = word), value? with
  | none, _ => .error (.unknown (String.ofList ('-' :: '-' :: s)))
  | some flag, some value =>
      if flag.takesValue then .given <$> g.put flag value else .error (.needlessValue flag)
  | some flag, none => if flag.takesValue then .ok (.awaits flag g) else meet flag g

/-- The value that follows a letter in its own word. -/
def attached : List Char -> List Char
  | '=' :: s => s
  | s => s

/-- Read a group of one-letter options, without the hyphen. -/
def readLetters (level : Level) : List Char -> Given -> Except Misuse Effect
  | [], g => .ok (.given g)
  | c :: s, g =>
      match level.flags.find? (·.letter? = some c) with
      | none => .error (.unknown (String.ofList ['-', c]))
      | some flag =>
          if flag.takesValue then
            if s.isEmpty then .ok (.awaits flag g)
            else .given <$> g.put flag (String.ofList (attached s))
          else if flag.isRequest then .ok (.asks flag)
          else
            match g.set flag with
            | .ok g => readLetters level s g
            | .error e => .error e

/-- Whether a word is an option or a group of options; a lone hyphen is neither. -/
def isOption (word : String) : Bool :=
  match word.toList with
  | '-' :: _ :: _ => true
  | _ => false

def readWord (level : Level) (word : String) (g : Given) : Except Misuse Effect :=
  match word.toList with
  | '-' :: '-' :: s => readLong level s g
  | '-' :: c :: s => readLetters level (c :: s) g
  | _ => .given <$> g.operand level word

/-- What became of the words of a level. -/
inductive Reading where
  /-- All words belong to the level. -/
  | finished (g : Given)
  | command (g : Given) (verb : Verb) (words : List String)
  | explanation (words : List String)
  | asks (flag : Flag)
  deriving Inhabited

def readOperands (level : Level) : List String -> Given -> Except Misuse Given
  | [], g => .ok g
  | word :: words, g =>
      match g.operand level word with
      | .ok g => readOperands level words g
      | .error e => .error e

/-- Whether a word begins the words of a command; no command follows another one. -/
def beginsCommand? (level : Level) (word : String) : Option Verb :=
  match level with
  | none => Verb.ofName? word
  | some _ => none

/-- Read the words of a level; `open?` is an option whose value is still missing. -/
def readWords (level : Level) : (open? : Option Flag) -> List String -> Given ->
    Except Misuse Reading
  | some flag, [], _ => .error (.missingValue flag)
  | some flag, word :: words, g =>
      if isOption word then .error (.missingValue flag)
      else
        match g.put flag word with
        | .ok g => readWords level none words g
        | .error e => .error e
  | none, [], g => .ok (.finished g)
  | none, word :: words, g =>
      match beginsCommand? level word with
      | some verb => .ok (.command g verb words)
      | none =>
          if level = none && word = "help" then .ok (.explanation words)
          else if word = "--" then .finished <$> readOperands level words g
          else
            match readWord level word g with
            | .ok (.given g) => readWords level none words g
            | .ok (.awaits flag g) => readWords level (some flag) words g
            | .ok (.asks flag) => .ok (.asks flag)
            | .error e => .error e

end Commandline

end TodoIndex
