import TodoIndex.Files.Path

/-!
# Remarks

A remark is a marked comment that was found in a file; the program's output calls it
an annotation.  Its place is the file and the line the comment starts on.
-/

namespace TodoIndex

/-- A marked comment found in a file. -/
structure Remark where
  /-- The comment without its delimiters. -/
  comment : String
  /-- The file the comment stands in. -/
  path : Path
  /-- The line the comment starts on, counted from one. -/
  line : UInt32
  /-- The innermost named function around the comment. -/
  function : Option String
  deriving DecidableEq, Inhabited

namespace Remark

def nameOf (function : Option String) : Option String :=
  function.filter (!·.isEmpty)

/-- A remark; an empty function name means that there is none. -/
def make (comment : String) (path : Path) (line : UInt32) (function : Option String) : Remark :=
  ⟨comment, path, line, nameOf function⟩

def place (r : Remark) : List Path.Component × UInt32 :=
  (r.path.components, r.line)

/-- The remarks of `old` at whose place `new` has none. -/
def resolvedSince (old new : List Remark) : List Remark :=
  let places := new.map place
  old.filter fun r => !places.contains r.place

end Remark

end TodoIndex
