import TodoIndex.OrderedMap
import TodoIndex.Registry.Document

/-!
# Installed helper commands

The registry of the commands that find remarks in files of other languages, each with the
extensions it is for.
-/

namespace TodoIndex

namespace Registry

/-- A helper command as it is registered. -/
structure Plugin where
  id : String
  language : String
  command : Path
  extensions : List String
  deriving DecidableEq, Inhabited

namespace Plugin

def ofJson? (value : Json) : Option Plugin := do
  match <- Json.record? ["id", "language", "command", "extensions"] value with
  | [id, language, command, extensions] =>
      let id <- Json.optional? "" Json.string? id
      let language <- Json.optional? "" Json.string? language
      let command <- Json.required? Json.string? command
      let extensions <- Json.optional? [] (Json.listOf? Json.string?) extensions
      some ⟨id, language, Path.ofString command, extensions⟩
  | _ => none

end Plugin

/-- The document that lists the helper commands. -/
structure PluginsDocument where
  plugins : List Plugin
  defaults : OrderedMap String
  deriving Inhabited

namespace PluginsDocument

def empty : PluginsDocument :=
  ⟨[], .empty⟩

def ofJson? (value : Json) : Option PluginsDocument := do
  match <- Json.record? ["plugins", "defaults"] value with
  | [plugins, defaults] =>
      let plugins <- Json.optional? [] (Json.listOf? Plugin.ofJson?) plugins
      let defaults <- Json.optional? [] (Json.mapOf? Json.string?) defaults
      some ⟨plugins, .ofList defaults⟩
  | _ => none

/-- The commands that can be run, with their extensions. -/
def commands (d : PluginsDocument) : List (Path × List String) :=
  (d.plugins.filter (!·.command.isEmpty)).map fun plugin => (plugin.command, plugin.extensions)

end PluginsDocument

def readPlugins (disk : Disk) (path : Path) : Except RegistryError PluginsDocument :=
  readDocument PluginsDocument.ofJson? .empty disk path

end Registry

end TodoIndex
