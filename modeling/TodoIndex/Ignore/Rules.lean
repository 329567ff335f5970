import TodoIndex.Files.Path
import TodoIndex.Ignore.Glob
import TodoIndex.Text.Blank
import TodoIndex.Text.Lines

/-!
# Ignore rules

A directory rule, written with a slash at its end, names the last components of a path; a
file rule is a shell pattern for the last component alone.  A filter is a list of rules
and ignores what one of them ignores, so neither their order nor repetitions matter.
-/

namespace TodoIndex

namespace Ignore

def forwardSlashes (s : List Char) : List Char :=
  s.map fun c => if c = '\\' then '/' else c

/-- A rule for paths that are to be ignored. -/
inductive Rule where
  /-- The components a path may end in. -/
  | folder (ending : List Char)
  /-- A pattern for names; one that does not read as a pattern matches nothing. -/
  | file (pattern : List Char) (pieces : Except Glob.Problem (List Glob.Piece))
  deriving Inhabited

namespace Rule

/-- The rule for directories of a name, or of several names joined by slashes. -/
def forFolder (ending : List Char) : Rule :=
  .folder (Text.dropTrailing '/' (forwardSlashes ending))

def forFile (pattern : List Char) : Rule :=
  .file pattern (Glob.ofPattern pattern)

def ofLine? (line : List Char) : Option Rule :=
  match Text.trim line with
  | [] => none
  | '#' :: _ => none
  | line =>
      match Text.stripTail? ['/'] line with
      | some [] => none
      | some ending => some (forFolder ending)
      | none => some (forFile line)

def pattern : Rule -> List Char
  | .folder ending => ending
  | .file pattern _ => pattern

def isFolder : Rule -> Bool
  | .folder _ => true
  | .file .. => false

def problem? : Rule -> Option Glob.Problem
  | .file _ (.error e) => some e
  | _ => none

/-- Whether the last components of a path are those of `ending`. -/
def endsIn (ending path : List Char) : Bool :=
  match Text.stripTail? ending path with
  | some lead => lead.isEmpty || lead.getLast? == some '/'
  | none => false

/-- Whether a rule ignores a path, given in normal form, and its last component. -/
def ignores (path name : List Char) : Rule -> Bool
  | .folder ending => !ending.isEmpty && endsIn ending path
  | .file _ (.ok pieces) => Glob.accepts pieces name
  | .file _ (.error _) => false

end Rule

def normalForm (path : Path) : List Char :=
  Text.dropTrailing '/' (forwardSlashes (Text.Utf8.decodeLossy path.bytes))

/-- What follows the last slash of a path in normal form. -/
def lastName (path : List Char) : List Char :=
  (path.reverse.takeWhile (· != '/')).reverse

/-- A list of rules. -/
structure Filter where
  rules : List Rule
  deriving Inhabited

namespace Filter

def empty : Filter :=
  ⟨[]⟩

/-- Folders that hold nothing worth reading. -/
def defaultFolders : List String :=
  [".git", ".hg", ".svn", "node_modules", "vendor", "dist", "build", "target", "__pycache__",
    ".venv"]

/-- Files that hold nothing worth reading. -/
def defaultFiles : List String :=
  [".DS_Store", "Thumbs.db", "*.log", "*.tmp", "*.swp", "*~"]

def defaults : Filter :=
  ⟨defaultFolders.map (Rule.forFolder ·.toList) ++ defaultFiles.map (Rule.forFile ·.toList)⟩

def add (f : Filter) (rule : Rule) : Filter :=
  ⟨f.rules ++ [rule]⟩

def rulesOf (text : List Char) : List Rule :=
  (Text.lines text).filterMap Rule.ofLine?

def addText (f : Filter) (text : List Char) : Filter :=
  ⟨f.rules ++ rulesOf text⟩

def ignores (f : Filter) (path : Path) : Bool :=
  let normal := normalForm path
  f.rules.any (·.ignores normal (lastName normal))

/-- Whether a path is ignored that leads from `at` along the given components, or one before it
on the way. -/
def prunesBelow (f : Filter) (base : Path) : List Path.Component -> Bool
  | [] => false
  | c :: rest =>
      let next := base.child c.bytes
      f.ignores next || f.prunesBelow next rest

/-- Whether a path, or a directory between it and the root, is ignored.  The root itself is
never ignored; a path outside is judged alone. -/
def prunes (f : Filter) (root path : Path) : Bool :=
  match Path.below? root path with
  | some components => f.prunesBelow root components
  | none => f.ignores path

end Filter

end Ignore

end TodoIndex
