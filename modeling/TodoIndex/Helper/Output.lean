import TodoIndex.Note
import TodoIndex.Remark
import TodoIndex.Text.Blank
import TodoIndex.Text.Lines

/-!
# What helper commands print

A helper prints one line for each remark: the line number, a colon and the comment, which
may end with the function's name in brackets.  Any other line is skipped.
-/

namespace TodoIndex

namespace Helper

/-- The value of decimal digits, if these are all digits and there is one. -/
def digits? (s : List Char) : Option Nat :=
  if s.isEmpty || !s.all Char.isDigit then none
  else some (s.foldl (fun n c => n * 10 + (c.toNat - '0'.toNat)) 0)

/-- A line number: digits, after a plus sign if one likes, for a number from 1 to 2³² - 1. -/
def lineNumber? (s : List Char) : Option UInt32 :=
  let digits := match s with
    | '+' :: rest => rest
    | _ => s
  match digits? digits with
  | some n => if 0 < n && n < UInt32.size then some (UInt32.ofNat n) else none
  | none => none

def opening : List Char :=
  "[in function".toList

/-- The name in brackets that a text consists of, blanks at its end apart. -/
def bracketed? (s : List Char) : Option (List Char) :=
  match Text.stripLead? opening s with
  | none => none
  | some rest =>
      let inside := rest.takeWhile (· != ']')
      match rest.dropWhile (· != ']') with
      | [] => none
      | _ :: after =>
          if inside.head?.any Text.isBlank && 2 <= inside.length && after.all Text.isBlank then
            some (Text.trim inside)
          else none

/-- Split a text before the first place from which on it is a name in brackets. -/
def splitFunction? : List Char -> Option (List Char × List Char)
  | [] => none
  | c :: s =>
      match bracketed? (c :: s) with
      | some name => some ([], name)
      | none => (splitFunction? s).map fun (comment, name) => (c :: comment, name)

/-- The comment and the function's name in the text behind the line number. -/
def splitText (text : List Char) : List Char × Option (List Char) :=
  match splitFunction? text with
  | some (comment, name) => (Text.trim comment, some name)
  | none => (text, none)

/-- What becomes of one line of output. -/
inductive LineResult where
  | remark (r : Remark)
  | nothing
  /-- The part before the first colon is no line number. -/
  | badNumber (line : List Char)

def readLine (path : Path) (line : List Char) : LineResult :=
  let line := Text.trim line
  match Text.splitFirst? ':' line with
  | none => .nothing
  | some (number, text) =>
      match lineNumber? (Text.trim number) with
      | none => .badNumber line
      | some n =>
          let (comment, function) := splitText (Text.trim text)
          .remark (Remark.make (String.ofList comment) path n (function.map String.ofList))

namespace LineResult

def remark? : LineResult -> Option Remark
  | .remark r => some r
  | _ => none

/-- The note about a line, if it is worth one. -/
def notes : LineResult -> List Note
  | .badNumber line =>
      [⟨.debug, .external, s!"skipped: bad line number in '{String.ofList line}'"⟩]
  | _ => []

end LineResult

def readOutput (path : Path) (output : List Char) : List LineResult :=
  (Text.lines output).map (readLine path)

def remarksOf (path : Path) (output : List Char) : List Remark :=
  (readOutput path output).filterMap LineResult.remark?

def notesOf (path : Path) (output : List Char) : List Note :=
  (readOutput path output).flatMap LineResult.notes

end Helper

end TodoIndex
