import TodoIndex.Settings.Layers

/-!
# Settings from tables

A table becomes settings field by field, in the order of its keys; the first value that does
not fit is the fault.  Keys that nobody knows do not count.  A group of settings may also be
written as an array of its values in their order.
-/

namespace TodoIndex

namespace Settings

/-- How a value is taken from a table. -/
abbrev Decoder (α : Type) := Toml -> Except SettingsError α

/-- The fault of a value in a table or array. -/
def within {α : Type} (key : String) : Except SettingsError α -> Except SettingsError α
  | .ok a => .ok a
  | .error e => .error { e with path := key :: e.path }

def refuse {α : Type} (fault : SettingsFault) : Except SettingsError α :=
  .error ⟨fault, []⟩

def textOf : Decoder String
  | .text s => .ok s
  | _ => refuse .wrongKind

def truthOf : Decoder Bool
  | .bool b => .ok b
  | _ => refuse .wrongKind

def naturalOf (bits : Nat) : Decoder Nat
  | .integer n => if 0 <= n && n < Int.pow 2 bits then .ok n.toNat else refuse .outOfRange
  | _ => refuse .wrongKind

def placed (items : List Toml) : List (String × Toml) :=
  items.zipIdx.map fun (item, place) => (toString place, item)

def listOf {α : Type} (decode : Decoder α) : Decoder (List α)
  | .array items => (placed items).mapM fun (place, item) => within place (decode item)
  | _ => refuse .wrongKind

def sortEntries (entries : Toml.Entries) : Toml.Entries :=
  entries.mergeSort fun a b => decide (a.1 ≤ b.1)

def mapOf {α : Type} (decode : Decoder α) : Decoder (OrderedMap α)
  | .table entries => do
      let decoded <- (sortEntries entries).mapM fun (key, value) =>
        within key ((decode value).map fun a => (key, a))
      .ok (.ofList decoded)
  | _ => refuse .wrongKind

/-- A field of a group of settings: its key, and how a value changes the group. -/
abbrev Field (σ : Type) := String × (Toml -> σ -> Except SettingsError σ)

/-- A field whose value is put into the group. -/
def field {σ α : Type} (key : String) (decode : Decoder α) (put : α -> σ -> σ) : Field σ :=
  (key, fun value group => (decode value).map fun a => put a group)

def setFields {σ : Type} (setters : List (String × (σ -> Except SettingsError σ))) (group : σ) :
    Except SettingsError σ :=
  setters.foldlM (fun group (key, set) => within key (set group)) group

def group {σ : Type} (fields : List (Field σ)) (start : σ) : Decoder σ
  | .table entries =>
      setFields ((sortEntries entries).filterMap fun (key, value) =>
        (fields.lookup key).map fun set => (key, set value)) start
  | .array items =>
      setFields ((placed items).zip fields |>.map fun ((place, item), _, set) =>
        (place, set item)) start
  | _ => refuse .wrongKind

def watcherOf : Decoder WatcherSettings :=
  group
    [field "debounce_ms" (naturalOf 64) fun n s => { s with debounce := n },
      field "sweep_interval_ms" (naturalOf 64) fun n s => { s with sweepInterval := n },
      field "fast_path" truthOf fun b s => { s with fastPath := b }] {}

def helpersOf : Decoder Nat :=
  group [field "external_timeout_secs" (naturalOf 64) fun n _ => n] 30

def languageOf : Decoder LanguageSettings :=
  group
    [field "enabled" truthOf fun b s => { s with enabled := b },
      field "extensions" (listOf textOf) fun xs s => { s with extensions := xs }] {}

def loggingOf : Decoder LoggingSettings :=
  group
    [field "default" textOf fun level s => { s with default := level },
      field "modules" (mapOf textOf) fun m s => { s with modules := m }] {}

/-- Settings from a table; `start` says what holds where nothing is set. -/
def decode (start : Settings) : Decoder Settings :=
  group
    [field "version" (naturalOf 32) fun n s => { s with version := n },
      field "data_dir" textOf fun path s => { s with dataFolder := Path.ofString path },
      field "ignore_file" textOf fun name s => { s with ignoreFile := name },
      field "watcher" watcherOf fun w s => { s with watcher := w },
      field "parsers" helpersOf fun n s => { s with helperTimeout := n },
      field "languages" (mapOf languageOf) fun m s => { s with languages := m },
      field "logging" loggingOf fun l s => { s with logging := l }] start

end Settings

end TodoIndex
