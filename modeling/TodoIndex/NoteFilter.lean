import TodoIndex.Note
import TodoIndex.Settings.Basic
import TodoIndex.Settings.Variables

/-!
# Which notes are shown

A filter is a list of directives.  The directive with the longest name that begins a note's
target decides: the note is shown if it is at least as important as the directive says.
-/

namespace TodoIndex

/-- Who shows notes: a command that ends by itself, or one that runs on. -/
inductive Surface where
  | once
  | daemon
  deriving DecidableEq, Repr, Inhabited

/-- A rule for the notes whose target begins with a name, or for all notes. -/
structure Directive where
  target : Option String
  /-- The least severity that is shown; without one nothing is. -/
  least : Option Severity
  deriving DecidableEq, Repr, Inhabited

namespace Directive

/-- Why a text is no directive. -/
inductive Fault where
  | malformed
  | unknownLevel
  deriving DecidableEq, Repr, Inhabited

def Fault.message : Fault -> String
  | .malformed => "invalid filter directive"
  | .unknownLevel =>
      "error parsing level filter: expected one of \"off\", \"error\", \"warn\", \"info\", " ++
        "\"debug\", \"trace\", or a number 0-5"

/-- The severity that a level lets through, by its name or its number. -/
def levelOf? (s : String) : Option (Option Severity) :=
  match String.ofList (Text.lowerAscii s.toList) with
  | "off" => some none
  | "error" => some (some .error)
  | "" => some (some .error)
  | "warn" => some (some .warn)
  | "info" => some (some .info)
  | "debug" => some (some .debug)
  | "trace" => some (some .trace)
  | s =>
      match Variables.integer? s.toList with
      | some 0 => if s.startsWith "-" then none else some none
      | some 1 => some (some .error)
      | some 2 => some (some .warn)
      | some 3 => some (some .info)
      | some 4 => some (some .debug)
      | some 5 => some (some .trace)
      | _ => none

def canBegin (c : Char) : Bool :=
  c.isAlphanum || c = '-' || c = ':' || c = '_' || 128 <= c.toNat

/-- The directive that a text is; one that is a name only lets everything through. -/
def ofText? (s : String) : Except Fault (Option Directive) :=
  match Text.trim s.toList with
  | [] => .ok (some ⟨none, some .trace⟩)
  | c :: rest =>
      if (c :: rest).contains '[' then .ok none
      else if !canBegin c then .error .malformed
      else
        match Text.splitFirst? '=' (c :: rest) with
        | some (target, level) =>
            match levelOf? (String.ofList level) with
            | some least => .ok (some ⟨some (String.ofList target), least⟩)
            | none => .error .unknownLevel
        | none =>
            match levelOf? s with
            | some least => .ok (some ⟨none, least⟩)
            | none => .ok (some ⟨some s, some .trace⟩)

/-- How long the name of a directive is; one without a name is the least special. -/
def rank (d : Directive) : Nat :=
  match d.target with
  | some target => target.utf8ByteSize + 1
  | none => 0

def covers (d : Directive) (target : String) : Bool :=
  match d.target with
  | some lead => lead.toList.isPrefixOf target.toList
  | none => true

end Directive

/-- The directives that decide which notes are shown. -/
structure NoteFilter where
  directives : List Directive
  deriving Inhabited

namespace NoteFilter

/-- The directives of a text, and complaints about its parts that are none. -/
def readParts : List String -> List Directive × List String
  | [] => ([], [])
  | part :: parts =>
      let (directives, complaints) := readParts parts
      match Directive.ofText? part with
      | .ok (some d) => (d :: directives, complaints)
      | .ok none => (directives, complaints)
      | .error fault =>
          let accent := String.singleton (Char.ofNat 96)
          let complaint := "ignoring " ++ accent ++ part ++ accent ++ ": " ++ fault.message
          (directives, complaint :: complaints)

/-- The filter that a text writes; without any directive only errors are shown. -/
def ofText (s : String) : NoteFilter × List String :=
  let parts := ((Text.splitAll ',' s.toList).filter (!·.isEmpty)).map String.ofList
  let (directives, complaints) := readParts parts
  (⟨if directives.isEmpty then [⟨none, some .error⟩] else directives⟩, complaints)

/-- The target of a part of the program that settings name. -/
def targetOf (part : String) : String :=
  if part = "todowatch" || part.toList.contains ':' && (part.splitOn "::").length > 1 then part
  else "todowatch::" ++ part

/-- The directives that settings ask for; a daemon tells of its work where nothing else is
said. -/
def textOf (settings : LoggingSettings) (surface : Surface) : String :=
  let parts := (settings.modules.entries.map fun (part, level) => (targetOf part, level)).mergeSort
    fun a b => a.1 < b.1 || (a.1 = b.1 && a.2 ≤ b.2)
  let own := if surface = .daemon && !parts.any (·.1 = "todowatch") then ["todowatch=info"] else []
  String.intercalate "," (settings.default :: own ++ parts.map fun (part, level) => s!"{part}={level}")

/-- The filter of a surface: a variable of the environment goes before the settings. -/
def make (environment : Environment) (settings : LoggingSettings) (surface : Surface) :
    NoteFilter × List String :=
  ofText ((environment.value? "RUST_LOG").getD (textOf settings surface))

/-- The more special of two directives; of equally special ones the later. -/
def stronger (first second : Directive) : Directive :=
  if first.rank <= second.rank then second else first

def directiveFor? (f : NoteFilter) (target : String) : Option Directive :=
  (f.directives.filter (·.covers target)).foldl
    (fun best d => some ((best.map (stronger · d)).getD d)) none

def lets (f : NoteFilter) (n : Note) : Bool :=
  match f.directiveFor? n.part.target with
  | some ⟨_, some least⟩ => least.rank <= n.severity.rank
  | _ => false

def line (surface : Surface) (n : Note) : String :=
  match surface with
  | .once => s!"{n.severity.label} {n.message}"
  | .daemon => s!"{n.severity.label} {n.part.target}: {n.message}"

def lines (f : NoteFilter) (surface : Surface) (notes : List Note) : List String :=
  (notes.filter f.lets).map (line surface)

end NoteFilter

end TodoIndex
