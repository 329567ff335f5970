import TodoIndex.Files.Disk
import TodoIndex.Settings.Variables
import TodoIndex.Toml.Reader

/-!
# Layers of settings

Settings come from three layers of tables: what holds where nothing is set, a document, and
the variables of the environment.  A value of a later layer takes the place of an earlier one;
two tables are merged key by key.
-/

namespace TodoIndex

namespace Toml

mutual

/-- A value seen through one that lies above it. -/
def merge (below : Toml) : Toml -> Toml
  | .table above =>
      match below with
      | .table entries => .table (mergeEntries entries above)
      | _ => .table above
  | value => value

/-- Lay the entries of a table above those of another one. -/
def mergeEntries (below : List (String × Toml)) : List (String × Toml) -> List (String × Toml)
  | [] => below
  | (key, value) :: above =>
      let merged := match below.lookup key with
        | some old => merge old value
        | none => value
      mergeEntries (OrderedMap.setEntry key merged below) above

end

def at? : (path : List String) -> Toml -> Option Toml
  | [], value => some value
  | key :: path, .table entries => (entries.lookup key).bind (at? path)
  | _ :: _, _ => none

end Toml

/-- Why settings could not be loaded. -/
inductive SettingsFault where
  /-- The document is malformed or cannot be read. -/
  | malformed
  /-- A value is of another kind than is wanted. -/
  | wrongKind
  | outOfRange
  deriving DecidableEq, Repr, Inhabited

/-- A fault and the keys that lead to the value in which it lies. -/
structure SettingsError where
  fault : SettingsFault
  path : List String
  deriving DecidableEq, Repr, Inhabited

namespace SettingsError

def message (e : SettingsError) : String :=
  let key := String.intercalate "." e.path
  match e.fault with
  | .malformed => "the document is malformed"
  | .wrongKind => s!"the value of key \"{key}\" is of a wrong kind"
  | .outOfRange => s!"the value of key \"{key}\" is out of range"

instance : ToString SettingsError where
  toString := message

end SettingsError

namespace Settings

def variableLayer (environment : Environment) : Toml :=
  (environment.bindings.filterMap fun (name, contents) => Variables.layerOf? name contents).foldl
    Toml.merge (.table [])

/-- A directory, whose names are given from the inmost, and those above it. -/
def foldersUpward : List Text.Bytes -> List Path
  | [] => [Disk.pathOf []]
  | name :: outer => Disk.pathOf (name :: outer).reverse :: foldersUpward outer

def isFile (disk : Disk) (path : Path) : Bool :=
  match disk.entry true path with
  | .ok (.file ..) => true
  | _ => false

/-- The document at a path; a relative path is looked for upward from the working directory. -/
def findDocument? (disk : Disk) (path : Path) : Option Path :=
  if path.isAbsolute then if isFile disk path then some path else none
  else ((foldersUpward disk.here.reverse).map (·.join path)).find? (isFile disk)

def readDocument? (content : Text.Bytes) : Option Toml :=
  match (Text.Utf8.decode? content).bind Toml.ofText? with
  | some entries => if Toml.entriesFit entries then some (.table entries) else none
  | none => none

/-- The layer of the document; where there is none it sets nothing. -/
def documentLayer (disk : Disk) (path : Path) : Except SettingsError Toml :=
  match findDocument? disk path with
  | none => .ok (.table [])
  | some path =>
      match disk.contents path with
      | .error _ => .error ⟨.malformed, []⟩
      | .ok content =>
          match readDocument? content with
          | some table => .ok table
          | none => .error ⟨.malformed, []⟩

end Settings

end TodoIndex
