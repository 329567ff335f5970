import TodoIndex.Language
import TodoIndex.Marker
import TodoIndex.Remark

/-!
# Remarks of a source

The remarks of a source text are its marked comments, cleaned, each with its line and
the function it stands in.
-/

namespace TodoIndex

namespace Extraction

def lineOf (comment : Syntax.Comment) : UInt32 :=
  comment.row.toUInt32 + 1

def functionOf (language : Language) (comment : Syntax.Comment) : Option String :=
  (Syntax.enclosingFunction language.namesByBinding comment.around).map String.ofList

/-- The remark a comment makes, if it carries a marker. -/
def remarkOf? (language : Language) (path : Path) (comment : Syntax.Comment) : Option Remark :=
  if Marker.hasMarker comment.raw then
    some (Remark.make (String.ofList (Marker.clean comment.raw)) path (lineOf comment)
      (functionOf language comment))
  else
    none

def ofTree (language : Language) (path : Path) (tree : Syntax.Tree) : List Remark :=
  tree.comments.filterMap (remarkOf? language path)

def ofSource (language : Language) (extension : String) (path : Path) (source : List Char) :
    List Remark :=
  ofTree language path (language.parse extension source)

end Extraction

end TodoIndex
