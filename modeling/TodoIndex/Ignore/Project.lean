import TodoIndex.Files.Disk
import TodoIndex.Ignore.Rules
import TodoIndex.Note

/-!
# Ignore files

Reading the ignore file of a project.  A project without one has the default rules alone,
and so has one whose ignore file cannot be read.
-/

namespace TodoIndex

namespace Ignore

namespace Filter

/-- Note the rules among these whose pattern is none. -/
def noteProblems (rules : List Rule) : Noted Unit :=
  rules.forM fun rule =>
    match rule.problem? with
    | some e =>
        Noted.warn .ignore s!"invalid glob '{String.ofList rule.pattern}': {e.message}"
    | none => pure ()

/-- The filter with the rules of an ignore file; `false` says that there is no such file. -/
def addFile (f : Filter) (disk : Disk) (path : Path) : Noted (Except OsError Bool × Filter) := do
  match disk.readText path with
  | .ok text =>
      noteProblems (rulesOf text)
      pure (.ok true, f.addText text)
  | .error .notFound => pure (.ok false, f)
  | .error e => pure (.error e, f)

/-- The default rules and those of the project's ignore file. -/
def forProject (disk : Disk) (root : Path) (ignoreFile : String) : Noted Filter := do
  let path := root.join (Path.ofString ignoreFile)
  let (outcome, filter) <- defaults.addFile disk path
  match outcome with
  | .ok true => Noted.debug .ignore s!"loaded: {path}"
  | .ok false => pure ()
  | .error e => Noted.warn .ignore s!"failed to read {path}: {e}"
  pure filter

end Filter

end Ignore

end TodoIndex
