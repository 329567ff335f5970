import TodoIndex.Settings.Decoding
import TodoIndex.Toml.Printer

/-!
# Settings and their document

Settings are loaded from their layers and saved as a document that writes out every value.
-/

namespace TodoIndex

namespace Settings

def languageTable (s : LanguageSettings) : Toml :=
  .table [("enabled", .bool s.enabled), ("extensions", .array (s.extensions.map .text))]

def loggingTable (s : LoggingSettings) : Toml :=
  .table [("default", .text s.default),
    ("modules", .table (s.modules.sorted.map fun (part, level) => (part, .text level)))]

def watcherTable (s : WatcherSettings) : Toml :=
  .table [("debounce_ms", .integer s.debounce), ("sweep_interval_ms", .integer s.sweepInterval),
    ("fast_path", .bool s.fastPath)]

def entries (s : Settings) : Toml.Entries :=
  [("version", .integer s.version), ("data_dir", .text s.dataFolder.display),
    ("ignore_file", .text s.ignoreFile), ("watcher", watcherTable s.watcher),
    ("parsers", .table [("external_timeout_secs", .integer s.helperTimeout)]),
    ("languages", .table (s.languages.sorted.map fun (key, l) => (key, languageTable l))),
    ("logging", loggingTable s.logging)]

def print (s : Settings) : List Char :=
  Toml.print s.entries

def isAbsolutePath (s : String) : Bool :=
  (Path.ofString s).isAbsolute

def programsFolder? (environment : Environment) : Option Path :=
  match environment.value? "XDG_DATA_HOME" with
  | some folder => if isAbsolutePath folder then some (Path.ofString folder) else none
  | none => none

def folderNamed? (name : Option String) : Option Path :=
  match name with
  | some folder => if folder.isEmpty then none else some (Path.ofString folder)
  | none => none

/-- The home directory: the one that the variable names, or else the one on record. -/
def home? (environment : Environment) : Option Path :=
  (folderNamed? (environment.value? "HOME")).or (folderNamed? environment.recordedHome)

/-- The directory for the program's data where nothing is set. -/
def defaultFolder (environment : Environment) : Path :=
  match programsFolder? environment, home? environment with
  | some folder, _ => folder.join (Path.ofString "todowatch")
  | none, some home => home.join (Path.ofString ".local/share/todowatch")
  | none, none => Path.ofString ".todowatch"

def defaultDocument (environment : Environment) : Path :=
  (defaultFolder environment).join (Path.ofString "settings.toml")

def ofEnvironment (environment : Environment) : Settings :=
  defaults (defaultFolder environment)

def load (disk : Disk) (environment : Environment) (path : Path) :
    Except SettingsError Settings := do
  let start := ofEnvironment environment
  let document <- documentLayer disk path
  let table := ((Toml.table start.entries).merge document).merge (variableLayer environment)
  decode start table

/-- Why settings could not be saved. -/
inductive SavingFault where
  | noFolder
  | io (cause : OsError)
  deriving DecidableEq, Inhabited

namespace SavingFault

def message : SavingFault -> String
  | .noFolder => "Invalid path"
  | .io cause => cause.message

instance : ToString SavingFault where
  toString := message

end SavingFault

/-- Write a text to a file whose directory is created if it is missing. -/
def writeText (disk : Disk) (path : Path) (text : List Char) : Except SavingFault Unit × Disk :=
  match path.parent? with
  | none => (.error .noFolder, disk)
  | some folder =>
      match disk.createFolders folder with
      | (.error cause, disk) => (.error (.io cause), disk)
      | (.ok (), disk) =>
          match disk.writeFile path (Text.bytesOf (String.ofList text)) with
          | (.error cause, disk) => (.error (.io cause), disk)
          | (.ok (), disk) => (.ok (), disk)

def save (s : Settings) (disk : Disk) (path : Path) : Except SavingFault Unit × Disk :=
  writeText disk path s.print

end Settings

end TodoIndex
