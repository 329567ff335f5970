import TodoIndex.Text.Blank
import TodoIndex.Text.Lines

/-!
# Markers in comments

A comment carries a marker when `TODO` or `FIXME`, in any case, follows a blank and
is itself followed by a blank, a colon or an opening bracket.  The test runs on the raw
comment, so the blank after the comment's own delimiter counts.  Cleaning a comment takes
its delimiters away and leaves one line.
-/

namespace TodoIndex

namespace Marker

/-- The words that mark a comment, in lower case. -/
def words : List (List Char) :=
  ["todo".toList, "fixme".toList]

/-- Characters that may directly follow a marker word. -/
def closesWord (c : Char) : Bool :=
  Text.isBlank c || c == ':' || c == '(' || c == '['

/-- Whether a text begins with a word and a character that may follow a marker word. -/
def beginsWord (word s : List Char) : Bool :=
  Text.lowerAscii (s.take word.length) == word &&
    match s.drop word.length with
    | c :: _ => closesWord c
    | [] => false

/-- Whether a raw comment carries a marker. -/
def hasMarker : List Char -> Bool
  | [] => false
  | c :: s => (Text.isBlank c && words.any (beginsWord · s)) || hasMarker s

/-- The delimiters that can open a comment line; the first that fits is taken away. -/
def lineOpenings : List (List Char) :=
  ["///".toList, "//!".toList, "//".toList, "#".toList]

/-- One line of a block comment without its blanks and its gutter of stars. -/
def cleanLine (line : List Char) : List Char :=
  Text.trim (Text.dropLeading '*' (Text.trim line))

def joinLines (lines : List (List Char)) : List Char :=
  List.intercalate [' '] lines

def cleanBlock (contents : List Char) : List Char :=
  joinLines (((Text.lines contents).map cleanLine).filter (!·.isEmpty))

/-- The text of a comment without its delimiters. -/
def clean (raw : List Char) : List Char :=
  let trimmed := Text.trim raw
  match Text.stripLead? ['/', '*'] trimmed with
  | some contents => cleanBlock ((Text.stripTail? ['*', '/'] contents).getD contents)
  | none =>
      Text.trim ((lineOpenings.findSome? (Text.stripLead? · trimmed)).getD trimmed)

end Marker

end TodoIndex
