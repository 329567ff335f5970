import TodoIndex.Files.Path
import TodoIndex.Text.Blank

/-!
# File extensions

The extension of a file decides who reads it.  Extensions are compared in a normal form:
without blanks around them, without leading dots and in lower ASCII case.
-/

namespace TodoIndex

namespace Extension

def normalize (extension : List Char) : List Char :=
  Text.lowerAscii (Text.dropLeading '.' (Text.trim extension))

def normal (extension : String) : String :=
  String.ofList (normalize extension.toList)

/-- The extension of a path in normal form, if the path has one that is text. -/
def ofPath? (path : Path) : Option String :=
  match path.extension?.bind Text.Utf8.decode? with
  | some extension =>
      match normalize extension with
      | [] => none
      | normal => some (String.ofList normal)
  | none => none

end Extension

end TodoIndex
