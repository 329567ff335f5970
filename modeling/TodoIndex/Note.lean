/-!
# Notes

While it works the program notes what it did; which notes are shown is decided at the very
end.  `Noted α` is a value together with the notes that were made on the way to it, the
oldest first.
-/

namespace TodoIndex

/-- How important a note is. -/
inductive Severity where
  | trace
  | debug
  | info
  | warn
  | error
  deriving DecidableEq, Repr, Inhabited

namespace Severity

def rank : Severity -> Nat
  | .trace => 0
  | .debug => 1
  | .info => 2
  | .warn => 3
  | .error => 4

/-- The name that stands before a shown note. -/
def label : Severity -> String
  | .trace => "TRACE"
  | .debug => "DEBUG"
  | .info => "INFO"
  | .warn => "WARN"
  | .error => "ERROR"

end Severity

/-- The part of the program a note comes from. -/
inductive Part where
  | ignore
  | walker
  | parse
  | external
  | parsers
  | store
  | scan
  | broadcast
  | watcher
  | source
  | daemon
  | config
  deriving DecidableEq, Repr, Inhabited

namespace Part

def tag : Part -> String
  | .ignore => "ignore"
  | .walker => "walker"
  | .parse => "parse"
  | .external => "external"
  | .parsers => "parsers"
  | .store => "store"
  | .scan => "scan"
  | .broadcast => "broadcast"
  | .watcher => "watcher"
  | .source => "watcher"
  | .daemon => "daemon"
  | .config => "config"

def target : Part -> String
  | .ignore => "todowatch::filter"
  | .walker => "todowatch::indexing::walker"
  | .parse => "todowatch::parsing::builtin"
  | .external => "todowatch::parsing::external"
  | .parsers => "todowatch::parsing::dispatch"
  | .store => "todowatch::storage::store"
  | .scan => "todowatch::indexing::scan"
  | .broadcast => "todowatch::notifications"
  | .watcher => "todowatch::watcher::project_watcher"
  | .source => "todowatch::watcher::source"
  | .daemon => "todowatch::cli::commands::daemon"
  | .config => "todowatch::config"

end Part

/-- One note. -/
structure Note where
  severity : Severity
  part : Part
  text : String
  deriving DecidableEq, Repr, Inhabited

namespace Note

/-- What is shown of a note, behind its severity and the part's name. -/
def message (n : Note) : String :=
  s!"[{n.part.tag}] {n.text}"

end Note

/-- A value and the notes made on the way to it. -/
structure Noted (α : Type) where
  value : α
  notes : List Note
  deriving Inhabited

namespace Noted

instance : Monad Noted where
  pure a := ⟨a, []⟩
  bind m f :=
    let next := f m.value
    ⟨next.value, m.notes ++ next.notes⟩

@[simp] theorem value_pure {α : Type} (a : α) : (pure a : Noted α).value = a := rfl

@[simp] theorem notes_pure {α : Type} (a : α) : (pure a : Noted α).notes = [] := rfl

@[simp] theorem value_bind {α β : Type} (m : Noted α) (f : α -> Noted β) :
    (m >>= f).value = (f m.value).value := rfl

@[simp] theorem notes_bind {α β : Type} (m : Noted α) (f : α -> Noted β) :
    (m >>= f).notes = m.notes ++ (f m.value).notes := rfl

@[simp] theorem value_map {α β : Type} (f : α -> β) (m : Noted α) :
    (f <$> m).value = f m.value := rfl

instance : LawfulMonad Noted :=
  LawfulMonad.mk' Noted
    (fun m => by cases m; simp [Functor.map])
    (fun a f => by simp [bind, pure])
    (fun m f g => by simp [bind, List.append_assoc])

/-- The notes of a loop do not change what comes of it. -/
theorem value_foldlM {α β : Type} (f : β -> α -> Noted β) (init : β) (items : List α) :
    (items.foldlM f init).value = items.foldl (fun b a => (f b a).value) init := by
  induction items generalizing init with
  | nil => rfl
  | cons a items ih =>
      rw [List.foldlM_cons, value_bind, ih]
      rfl

def note (severity : Severity) (part : Part) (text : String) : Noted Unit :=
  ⟨(), [⟨severity, part, text⟩]⟩

def debug (part : Part) (text : String) : Noted Unit :=
  note .debug part text

def info (part : Part) (text : String) : Noted Unit :=
  note .info part text

def warn (part : Part) (text : String) : Noted Unit :=
  note .warn part text

def error (part : Part) (text : String) : Noted Unit :=
  note .error part text

def addAll (notes : List Note) : Noted Unit :=
  ⟨(), notes⟩

@[simp] theorem value_note (severity : Severity) (part : Part) (text : String) :
    (note severity part text).value = () := rfl

end Noted

end TodoIndex
