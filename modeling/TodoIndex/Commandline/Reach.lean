import TodoIndex.Commandline.Run

/-!
# What a run looks at

The paths that a run reads or writes.  More of them become known as more of the disk is known:
the settings tell where the documents are, and the registries tell of projects and helpers.
-/

namespace TodoIndex

namespace Commandline

def documentPlaces (disk : Disk) (path : Path) : List Path :=
  if path.isAbsolute then [path]
  else (Settings.foldersUpward disk.here.reverse).map (·.join path)

def samplePlaces (environment : Environment) (document : Path) : List Path :=
  let name := sampleName (Settings.ofEnvironment environment).ignoreFile
  (document.parent?.map (·.join (Path.ofString name))).toList

def helperPlaces (settings : Settings) (disk : Disk) : List Path :=
  match Registry.readPlugins disk settings.pluginsPath with
  | .ok plugins => (plugins.commands.map Prod.fst).filter (·.bytes.contains Path.slash)
  | .error _ => []

def rootPlaces (settings : Settings) (disk : Disk) : Command -> List Path
  | .scan (.folder root _) => [root]
  | .scan _ | .daemon =>
      match Registry.readProjects disk settings.projectsPath with
      | .ok projects => projects.tracked.map Prod.snd
      | .error _ => []
  | _ => []

/-- The paths that a request looks at, as far as the disk shows them. -/
def reachOf (environment : Environment) (disk : Disk) (request : Request) : List Path :=
  let document := documentPath environment request
  match request.command with
  | .init _ => document :: samplePlaces environment document
  | command =>
      documentPlaces disk document ++
        match Settings.load disk environment document with
        | .error _ => []
        | .ok settings =>
            [settings.dataFolder, settings.storePath, settings.projectsPath,
              settings.pluginsPath] ++
              helperPlaces settings disk ++ rootPlaces settings disk command

/-- The paths that a run looks at, as far as the disk shows them. -/
def reach (environment : Environment) (disk : Disk) (words : List String) : List Path :=
  match Asked.ofWords environment words with
  | .ok (.run request) => reachOf environment disk request
  | _ => []

end Commandline

end TodoIndex
