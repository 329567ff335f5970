import TodoIndex.Extension
import TodoIndex.Language
import TodoIndex.Note
import TodoIndex.Registry.Plugins
import TodoIndex.Settings.Basic
import TodoIndex.Text.Quoted

/-!
# Who reads which file

Readers claim file extensions: first the built-in languages in their order, then the helper
commands in theirs.  Of several readers that claim an extension the first one has it.
-/

namespace TodoIndex

/-- Something that finds remarks in files. -/
inductive Reader where
  | builtIn (language : Language)
  | helper (command : Path)
  deriving DecidableEq, Inhabited

namespace Reader

def isBuiltIn : Reader -> Bool
  | .builtIn _ => true
  | .helper _ => false

end Reader

/-- A reader with the extensions that it claims, which are in normal form and in order. -/
structure Claim where
  reader : Reader
  extensions : List String
  deriving DecidableEq, Inhabited

namespace Claim

/-- Insert an extension into an ordered list without repetitions. -/
def insertExtension (extension : String) : List String -> List String
  | [] => [extension]
  | other :: rest =>
      if extension = other then other :: rest
      else if extension < other then extension :: other :: rest
      else other :: insertExtension extension rest

/-- The normal forms of extensions in order; one that is empty counts as none. -/
def normalSet (extensions : List String) : List String :=
  ((extensions.map Extension.normal).filter (!·.isEmpty)).foldl
    (fun set extension => insertExtension extension set) []

/-- The claim of a reader on some extensions, however they are written. -/
def make (reader : Reader) (extensions : List String) : Claim :=
  ⟨reader, normalSet extensions⟩

def handles (c : Claim) (extension : String) : Bool :=
  c.extensions.contains extension

end Claim

/-- The claims of all readers in their order. -/
structure Readers where
  claims : List Claim
  deriving Inhabited

namespace Readers

def none : Readers :=
  ⟨[]⟩

def add (r : Readers) (claim : Claim) : Readers :=
  ⟨r.claims ++ [claim]⟩

def addHelper (r : Readers) (command : Path) (extensions : List String) : Readers :=
  r.add (.make (.helper command) extensions)

def addLanguage (settings : Settings) (r : Readers) (language : Language) : Noted Readers :=
  match settings.languages.get? language.key with
  | .none => pure r
  | some s =>
      if s.enabled then pure (r.add (.make (.builtIn language) s.extensions))
      else do
        Noted.debug .parsers s!"disabled: {language}"
        pure r

def builtIn (settings : Settings) : Noted Readers :=
  Language.all.foldlM (addLanguage settings) none

def addCommand (r : Readers) : Path × List String -> Noted Readers
  | (command, extensions) => do
      Noted.debug .parsers s!"plugin: {command} for {Text.quotedList extensions}"
      pure (r.addHelper command extensions)

/-- The built-in languages and the helper commands of a registry, unless it cannot be read. -/
def ofRegistry (settings : Settings) (plugins : Except RegistryError Registry.PluginsDocument) :
    Noted Readers := do
  let readers <- builtIn settings
  match plugins with
  | .ok document => document.commands.foldlM addCommand readers
  | .error e =>
      Noted.warn .parsers s!"failed to load plugins, using built-ins only: {e}"
      pure readers

/-- The readers that settings and the registry of helper commands on disk give. -/
def ofSettings (settings : Settings) (disk : Disk) : Noted Readers :=
  ofRegistry settings (Registry.readPlugins disk settings.pluginsPath)

/-- The claim that has an extension, however it is written. -/
def claimOf? (r : Readers) (extension : String) : Option Claim :=
  r.claims.find? (·.handles (Extension.normal extension))

def claimOfPath? (r : Readers) (path : Path) : Option Claim :=
  (Extension.ofPath? path).bind r.claimOf?

/-- Of the extensions that claims are made on, those that a built-in language has, as long as
`seen` holds the extensions of earlier claims. -/
def builtInBehind (seen : List String) : List Claim -> List String
  | [] => []
  | c :: claims =>
      let fresh := c.extensions.filter (!seen.contains ·)
      (if c.reader.isBuiltIn then fresh else []) ++ builtInBehind (seen ++ c.extensions) claims

def builtInExtensions (r : Readers) : List String :=
  builtInBehind [] r.claims

end Readers

end TodoIndex
