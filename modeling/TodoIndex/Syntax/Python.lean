import TodoIndex.Syntax.Lexeme

/-!
# Outline of Python sources

A source is a sequence of logical lines whose indentation opens and closes blocks.
Where a block is about to end, the comments that are indented at least as far as the
block still belong to it, up to the first one that is not.
-/

namespace TodoIndex

namespace Syntax

namespace Python

open TodoIndex.Syntax.Parser

def commentLength (s : List Char) : Nat :=
  match s with
  | '#' :: _ => lineLength s
  | _ => 0

def lexis : Lexis where
  commentLength := commentLength
  wordAt := wordAt

/-- The layout between one logical line and the next. -/
structure Layout where
  /-- The indentation of the next line of code; zero at the end of the source. -/
  indent : Nat
  /-- The indentation of the first comment before that line. -/
  firstComment : Option Nat
  deriving DecidableEq, Repr

/-- Read the layout; a tab counts eight columns, and only a line of its own counts as a comment. -/
def layoutFrom (inComment : Bool) (indent : Nat) (first : Option Nat) : List Char -> Layout
  | [] => ⟨0, first⟩
  | '\n' :: s => layoutFrom false 0 first s
  | '\\' :: '\n' :: s =>
      if inComment then layoutFrom false 0 first s else layoutFrom false indent first s
  | '\\' :: '\r' :: '\n' :: s =>
      if inComment then layoutFrom false 0 first s else layoutFrom false indent first s
  | c :: s =>
      if inComment then layoutFrom true indent first s
      else if c = ' ' then layoutFrom false (indent + 1) first s
      else if c = '\t' then layoutFrom false (indent + 8) first s
      else if c = '\r' || c = '\x0c' then layoutFrom false 0 first s
      else if c = '#' then layoutFrom true indent (first.or (some indent)) s
      else ⟨indent, first⟩

/-- The layout after the end of a logical line. -/
def layout (s : List Char) : Layout :=
  layoutFrom false 0 none s

/-- The readers for what can nest, at one depth of nesting. -/
structure Rules where
  /-- From an opening bracket to the bracket that closes it. -/
  bracketed : Parser Unit
  /-- An expression between braces inside a formatted string. -/
  interpolation : Parser Unit
  /-- The lines of a block with the given indentation. -/
  block : Nat -> Parser Unit

/-- The length of the prefix of a string literal; `none` where no string literal begins. -/
def stringPrefix? (s : List Char) : Option (List Char) :=
  let w := wordAt s
  match s.drop w.length with
  | c :: _ =>
      if (c = '"' || c = '\'') && w.length <= 3 &&
          w.all (fun x => "rbuft".toList.contains x.toLower) then
        some w
      else
        none
  | [] => none

/-- The quotes that open and close a string literal. -/
def quotesAt (s : List Char) : List Char :=
  match s with
  | a :: b :: c :: _ => if a = b && b = c then [a, b, c] else [a]
  | a :: _ => [a]
  | [] => []

/-- The length of plain string contents up to and with the closing quotes. -/
def plainLength (close : List Char) : List Char -> Nat
  | [] => 0
  | '\\' :: _ :: s => 2 + plainLength close s
  | c :: s => if close.isPrefixOf (c :: s) then close.length else 1 + plainLength close s

/-- The length of formatted string contents up to the closing quotes or an interpolation. -/
def chunkLength (close : List Char) : List Char -> Nat
  | [] => 0
  | '\\' :: '{' :: s => 1 + chunkLength close ('{' :: s)
  | '\\' :: _ :: s => 2 + chunkLength close s
  | '{' :: '{' :: s => 2 + chunkLength close s
  | c :: s => if c = '{' || close.isPrefixOf (c :: s) then 0 else 1 + chunkLength close s
  termination_by s => s.length

/-- Read the contents of a formatted string and its closing quotes. -/
def formattedRest (rules : Rules) (close : List Char) : Parser Unit :=
  repeatWhile do
    take (chunkLength close (← remaining))
    match (← remaining) with
    | [] => fail
    | '{' :: _ =>
        orElse rules.interpolation (take 1)
        pure true
    | _ =>
        take close.length
        pure false

def stringLiteral (rules : Rules) : Parser Unit := do
  let s ← remaining
  match stringPrefix? s with
  | none => fail
  | some lead =>
      let close := quotesAt (s.drop lead.length)
      let opening := lead.length + close.length
      if lead.any (fun x => x.toLower == 'f' || x.toLower == 't') then
        take opening
        formattedRest rules close
      else
        take (opening + plainLength close (s.drop opening))

/-- Read one token that is no blank, comment or line end. -/
def token (rules : Rules) : Parser Unit := do
  let s ← remaining
  match s with
  | [] => fail
  | c :: _ =>
      if (stringPrefix? s).isSome then stringLiteral rules
      else if c == '(' || c == '[' || c == '{' then orElse rules.bracketed (take 1)
      else if c == ')' || c == ']' || c == '}' then fail
      else if isWordChar c then take (lengthWhile isWordChar s)
      else take 1

/-- Read from an opening bracket to the bracket that closes it. -/
def bracketed (rules : Rules) : Parser Unit := do
  let close ← match (← remaining) with
    | '(' :: _ => pure ")"
    | '[' :: _ => pure "]"
    | '{' :: _ => pure "\x7d"
    | _ => fail
  take 1
  many do
    lexis.trivia
    token rules
  lexis.symbol close

/-- Read an expression between braces inside a formatted string, with its format. -/
def interpolation (rules : Rules) : Parser Unit := do
  guard (begins (← remaining) "\x7b")
  take 1
  many do
    lexis.trivia
    guard (!(begins (← remaining) ":"))
    token rules
  if ← lexis.symbol? ":" then
    repeatWhile do
      take (lengthWhile (fun c => c != '{' && c != '}') (← remaining))
      match (← remaining) with
      | '{' :: _ =>
          rules.interpolation
          pure true
      | _ => pure false
  lexis.symbol "\x7d"

/-- Read one token, comment or run of blanks of a logical line; fail where the line ends. -/
def lineToken (rules : Rules) : Parser Unit := do
  let s ← remaining
  match s with
  | [] => fail
  | '\n' :: _ => fail
  | '#' :: _ => comment commentLength
  | '\\' :: '\n' :: _ => take 2
  | '\\' :: '\r' :: '\n' :: _ => take 3
  | c :: _ =>
      if isSpacing c then take (lengthWhile (fun x => isSpacing x && x != '\n') s)
      else orElse (token rules) (take 1)

/-- Read to the end of a logical line, and the block below it if the next line is indented. -/
def lineAndBlock (rules : Rules) (indent : Nat) : Parser Unit := do
  many (lineToken rules)
  let next := layout (← remaining)
  if next.indent > indent then
    rules.block next.indent

/-- Read a function definition, from `async` or `def` to the end of its block. -/
def function (rules : Rules) (indent : Nat) : Parser Unit :=
  lexis.node do
    let _ ← lexis.keyword? "async"
    lexis.keyword "def"
    let (_, name) ← lexis.named lexis.word
    lineAndBlock rules indent
    pure (some (.function, some name), ())

/-- Read a logical line and the block it opens. -/
def statement (rules : Rules) (indent : Nat) : Parser Unit := do
  lexis.trivia
  guard (!(← remaining).isEmpty)
  orElse (function rules indent) (lineAndBlock rules indent)

/-- Read the lines of a block and the comments that belong to it. -/
def block (rules : Rules) (indent : Nat) : Parser Unit :=
  repeatWhile do
    let next := layout (← remaining)
    if next.indent < indent then
      match next.firstComment with
      | none => pure false
      | some column =>
          if column < indent then
            pure false
          else
            many blanks
            comment commentLength
            pure true
    else
      statement rules indent
      pure true

/-- The readers for a nesting of at most the given depth. -/
def rules : (depth : Nat) -> Rules
  | 0 => ⟨fail, fail, fun _ => fail⟩
  | depth + 1 =>
      { bracketed := fun s => bracketed (rules depth) s
        interpolation := fun s => interpolation (rules depth) s
        block := fun indent s => block (rules depth) indent s }

def sourceFile (rules : Rules) : Parser Unit := do
  block rules 0
  many (statement rules 0)
  lexis.trivia

def parse (source : List Char) : Tree :=
  wholeTree (sourceFile (rules (source.length + 1))) source

end Python

end Syntax

end TodoIndex
