import TodoIndex.Syntax.Lexeme

/-!
# Outline of Go sources

Functions and methods are declared at the top level only; everything else is read as
balanced tokens.  A line end closes a declaration where the language inserts a
semicolon: after a word, a literal or a closing bracket.
-/

namespace TodoIndex

namespace Syntax

namespace Go

open TodoIndex.Syntax.Parser

def lexis : Lexis where
  commentLength := slashCommentLength (· == '\n')
  wordAt := wordAt

/-- Keywords after which a line end inserts no semicolon. -/
def openKeywords : List String :=
  ["case", "chan", "const", "default", "defer", "else", "for", "func", "go", "goto", "if",
    "import", "interface", "map", "package", "range", "select", "struct", "switch", "type", "var"]

/-- Read one token, and answer whether a declaration can end after it. -/
def token (bracketed : Parser Unit) : Parser Bool := do
  lexis.trivia
  let s ← remaining
  match s with
  | [] => fail
  | c :: _ =>
      if c == '"' || c == '\'' then
        take (quotedLength s)
        pure true
      else if c == '`' then
        take (1 + lengthThrough ['`'] (s.drop 1))
        pure true
      else if c == '(' || c == '[' || c == '{' then
        orElse bracketed (take 1)
        pure true
      else if c == ')' || c == ']' || c == '}' then
        fail
      else if isWordChar c then
        let w := s.takeWhile isWordChar
        take w.length
        pure (!openKeywords.contains (String.ofList w))
      else
        take 1
        pure false

/-- Read from an opening bracket to the bracket that closes it; `depth` bounds the nesting. -/
def bracketed : (depth : Nat) -> Parser Unit
  | 0 => fail
  | depth + 1 => do
      lexis.trivia
      let close ← match (← remaining) with
        | '(' :: _ => pure ")"
        | '[' :: _ => pure "]"
        | '{' :: _ => pure "\x7d"
        | _ => fail
      take 1
      many (token (bracketed depth))
      lexis.symbol close

/-- Read a type; `depth` bounds the nesting. -/
def type : (depth : Nat) -> Parser Unit
  | 0 => fail
  | depth + 1 => do
      lexis.trivia
      match (← remaining) with
      | '*' :: _ =>
          take 1
          type depth
      | '[' :: _ =>
          bracketed depth
          type depth
      | '(' :: _ => bracketed depth
      | '<' :: '-' :: _ =>
          take 2
          type depth
      | _ =>
          let w := String.ofList (← lexis.word)
          if w == "map" then
            bracketed depth
            type depth
          else if w == "chan" then
            let _ ← lexis.symbol? "<-"
            type depth
          else if w == "func" then
            bracketed depth
            let s ← lexis.ahead
            if !(← lexis.lineEndsAhead) && !(begins s "\x7b") then
              let _ ← optional (type depth)
          else if w == "struct" || w == "interface" then
            bracketed depth
          else
            many do
              lexis.symbol "."
              lexis.word
            if (← lexis.sees "[") && !(← lexis.lineEndsAhead) then
              bracketed depth

/-- Read a function or method declaration, with or without a body. -/
def function (depth : Nat) : Parser Unit :=
  lexis.node do
    lexis.keyword "func"
    if ← lexis.sees "(" then
      bracketed depth
    let (_, name) ← lexis.named lexis.word
    if ← lexis.sees "[" then
      bracketed depth
    bracketed depth
    if !(← lexis.lineEndsAhead) then
      if !(← lexis.sees "\x7b") && !(← lexis.sees ";") then
        let _ ← optional (type depth)
    if !(← lexis.lineEndsAhead) && (← lexis.sees "\x7b") then
      bracketed depth
    pure (some (.function, some name), ())

/-- Read the tokens of any other declaration, up to the line end or semicolon that closes it. -/
def otherDeclaration (depth : Nat) : Parser Unit :=
  repeatWhile do
    let mayEnd ← token (bracketed depth)
    pure (!(mayEnd && (← lexis.lineEndsAhead)) && !(← lexis.sees ";"))

def sourceFile (depth : Nat) : Parser Unit := do
  many do
    lexis.trivia
    guard (!(← remaining).isEmpty)
    let w ← lexis.wordAhead
    if w == "func".toList then
      orElse (function depth) (otherDeclaration depth)
    else if ← lexis.sees ";" then
      take 1
    else
      orElse (bind (token (bracketed depth)) fun _ => otherDeclaration depth) (take 1)
  lexis.trivia

def parse (source : List Char) : Tree :=
  wholeTree (sourceFile (source.length + 1)) source

end Go

end Syntax

end TodoIndex
