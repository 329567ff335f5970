import TodoIndex.Files.Path
import TodoIndex.OrderedMap

/-!
# Settings

What can be set, and what holds where nothing is set.  The settings of languages are kept by
their keys; keys that name no built-in language are kept as well.
-/

namespace TodoIndex

/-- Settings of the watcher; times are in milliseconds. -/
structure WatcherSettings where
  debounce : Nat := 2000
  sweepInterval : Nat := 500
  fastPath : Bool := true
  deriving DecidableEq, Repr, Inhabited

namespace WatcherSettings

/-- The time between sweeps; there is always some. -/
def sweep (s : WatcherSettings) : Nat :=
  max s.sweepInterval 1

end WatcherSettings

/-- Settings of a language. -/
structure LanguageSettings where
  enabled : Bool := true
  extensions : List String := []
  deriving DecidableEq, Repr, Inhabited

/-- Which notes are shown. -/
structure LoggingSettings where
  /-- The least severity for all parts. -/
  default : String := "warn"
  /-- The least severity for single parts. -/
  modules : OrderedMap String := .empty
  deriving Inhabited

/-- All settings. -/
structure Settings where
  version : Nat := 1
  dataFolder : Path
  ignoreFile : String := ".todoignore"
  watcher : WatcherSettings := {}
  /-- How long a helper command may run, in seconds. -/
  helperTimeout : Nat := 30
  languages : OrderedMap LanguageSettings
  logging : LoggingSettings := {}
  deriving Inhabited

namespace Settings

def defaultExtensions : List (String × List String) :=
  [("go", ["go"]), ("javascript", ["js", "jsx", "mjs", "cjs"]), ("python", ["py", "pyi"]),
    ("rust", ["rs"]), ("typescript", ["ts", "tsx", "mts", "cts"])]

def defaultLanguages : OrderedMap LanguageSettings :=
  .ofList (defaultExtensions.map fun (key, extensions) => (key, ⟨true, extensions⟩))

/-- The settings where nothing is set, with a directory for the program's data. -/
def defaults (dataFolder : Path) : Settings :=
  { dataFolder, languages := defaultLanguages }

def storePath (s : Settings) : Path :=
  s.dataFolder.join (Path.ofString "todos.json")

def projectsPath (s : Settings) : Path :=
  s.dataFolder.join (Path.ofString "projects.json")

/-- The document of the helper commands. -/
def pluginsPath (s : Settings) : Path :=
  s.dataFolder.join (Path.ofString "plugins.json")

/-- How long a helper command may run, in seconds; there is always some time. -/
def helperSeconds (s : Settings) : Nat :=
  max s.helperTimeout 1

end Settings

end TodoIndex
