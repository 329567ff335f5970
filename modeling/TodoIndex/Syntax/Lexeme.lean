import TodoIndex.Text.Blank
import TodoIndex.Syntax.Parser

/-!
# Lexemes that several languages share

Lengths of words, numbers and quoted texts at the head of a text, and parsers for the
blanks and comments between tokens.  The comment forms of a language are given by one
function: the length of the comment a text begins with, zero if it begins with none.
-/

namespace TodoIndex

namespace Syntax

/-- Characters that separate tokens in every supported language. -/
def isSpacing (c : Char) : Bool :=
  Text.isBlank c || c == '\uFEFF' || c == '\u200B' || c == '\u2060'

/-- Characters that a word of source text is made of; every letter outside ASCII is one. -/
def isWordChar (c : Char) : Bool :=
  c.isAlphanum || c == '_' || c == '$' || (c.toNat >= 0x80 && !isSpacing c)

/-- Characters that a word of source text may begin with. -/
def isWordStart (c : Char) : Bool :=
  isWordChar c && !c.isDigit

/-- The length of the first part of a text whose characters satisfy `p`. -/
def lengthWhile (p : Char -> Bool) (s : List Char) : Nat :=
  (s.takeWhile p).length

/-- The word a text begins with; empty if it begins with none. -/
def wordAt (s : List Char) : List Char :=
  match s with
  | c :: _ => if isWordStart c then s.takeWhile isWordChar else []
  | [] => []

def begins (s : List Char) (lead : String) : Bool :=
  lead.toList.isPrefixOf s

/-- The length of a text up to and with its first `close`; a backslash protects one character. -/
def escapedLength (close : Char) : List Char -> Nat
  | [] => 0
  | '\\' :: _ :: s => 2 + escapedLength close s
  | c :: s => if c = close then 1 else 1 + escapedLength close s

/-- The length of a quoted text, from its quote to the quote that ends it. -/
def quotedLength : List Char -> Nat
  | [] => 0
  | q :: s => 1 + escapedLength q s

/-- The length of a text up to and with its first `close`. -/
def lengthThrough (close : List Char) : List Char -> Nat
  | [] => 0
  | c :: s => if close.isPrefixOf (c :: s) then close.length else 1 + lengthThrough close s

/-- The length of a text up to its first line feed. -/
def lineLength (s : List Char) : Nat :=
  lengthWhile (· != '\n') s

/-- The length of a comment from two slashes to the line feed, or from `/*` to the first `*/`. -/
def slashCommentLength (endsLine : Char -> Bool) : List Char -> Nat
  | '/' :: '/' :: s => 2 + lengthWhile (fun c => !endsLine c) s
  | '/' :: '*' :: s => 2 + lengthThrough ['*', '/'] s
  | _ => 0

namespace Parser

/-- Read blanks; fail if there are none. -/
def blanks : Parser Unit := do
  let n := lengthWhile isSpacing (← remaining)
  guard (n != 0)
  take n

/-- Read one comment; fail if there is none. -/
def comment (commentLength : List Char -> Nat) : Parser Unit := do
  let n := commentLength (← remaining)
  guard (n != 0)
  takeComment n

end Parser

/-- How a language writes its comments and words. -/
structure Lexis where
  commentLength : List Char -> Nat
  /-- The word a text begins with; empty if it begins with none. -/
  wordAt : List Char -> List Char

namespace Lexis

open TodoIndex.Syntax.Parser

/-- Read the blanks and comments before the next token. -/
def trivia (lexis : Lexis) : Parser Unit :=
  many (orElse blanks (comment lexis.commentLength))

/-- What comes after the blanks and comments before the next token; nothing is read. -/
def ahead (lexis : Lexis) : Parser (List Char) := fun input =>
  match lexis.trivia input with
  | none => some ⟨input, [], input, rfl⟩
  | some step => some ⟨step.rest, [], input, rfl⟩

/-- The blanks and comments before the next token; nothing is read. -/
def gapAhead (lexis : Lexis) : Parser (List Char) := fun input =>
  match lexis.trivia input with
  | none => some ⟨[], [], input, rfl⟩
  | some step => some ⟨Tree.textAll step.output, [], input, rfl⟩

/-- Whether a line ends before the next token. -/
def lineEndsAhead (lexis : Lexis) : Parser Bool := do
  let gap ← lexis.gapAhead
  pure (gap.any fun c => c == '\n' || c == '\u2028' || c == '\u2029')

/-- Whether the next token begins with a text. -/
def sees (lexis : Lexis) (lead : String) : Parser Bool := do
  pure (begins (← lexis.ahead) lead)

/-- The word that comes next, empty if none does; nothing is read. -/
def wordAhead (lexis : Lexis) : Parser (List Char) := do
  pure (lexis.wordAt (← lexis.ahead))

/-- Read one fixed token. -/
def symbol (lexis : Lexis) (lead : String) : Parser Unit := do
  lexis.trivia
  guard (begins (← remaining) lead)
  take lead.length

/-- Read one fixed token if it comes next, and answer whether it did. -/
def symbol? (lexis : Lexis) (lead : String) : Parser Bool := do
  if ← lexis.sees lead then
    lexis.symbol lead
    pure true
  else
    pure false

def word (lexis : Lexis) : Parser (List Char) := do
  lexis.trivia
  let w := lexis.wordAt (← remaining)
  guard (!w.isEmpty)
  take w.length
  pure w

/-- Read one fixed word. -/
def keyword (lexis : Lexis) (w : String) : Parser Unit := do
  let found ← lexis.word
  guard (found == w.toList)

/-- Read one fixed word if it comes next, and answer whether it did. -/
def keyword? (lexis : Lexis) (w : String) : Parser Bool := do
  if (← lexis.wordAhead) == w.toList then
    lexis.keyword w
    pure true
  else
    pure false

/-- Read what `p` reads as one node; blanks and comments before its first token stay outside. -/
def node {α : Type} (lexis : Lexis)
    (p : Parser (Option (Kind × Option (List Char)) × α)) : Parser α := do
  lexis.trivia
  group p

/-- Read what `p` reads as a node of no special kind. -/
def plainNode {α : Type} (lexis : Lexis) (p : Parser α) : Parser α :=
  lexis.node do
    let a ← p
    pure (some (.other, none), a)

/-- Read with `p` and answer also with the text from its first token to its last. -/
def named {α : Type} (lexis : Lexis) (p : Parser α) : Parser (α × List Char) := do
  lexis.trivia
  withText p

end Lexis

end Syntax

end TodoIndex
