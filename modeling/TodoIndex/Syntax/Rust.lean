import TodoIndex.Syntax.Lexeme

/-!
# Outline of Rust sources

A function is an item with a name and a body, wherever it stands.  The arguments of
macros and attributes are only balanced tokens, so nothing in them is a function.
Block comments nest, and a documentation line comment reaches through its line feed.
-/

namespace TodoIndex

namespace Syntax

namespace Rust

open TodoIndex.Syntax.Parser

/-- What the character before was, inside a block comment. -/
inductive BlockState where
  | plain
  | slash
  | star

/-- The length of a nested block comment after its opening, `depth` openings being unclosed. -/
def blockLength (depth : Nat) (state : BlockState) : List Char -> Nat
  | [] => 0
  | c :: s =>
      match state with
      | .plain =>
          if c = '/' then 1 + blockLength depth .slash s
          else if c = '*' then 1 + blockLength depth .star s
          else 1 + blockLength depth .plain s
      | .slash =>
          if c = '*' then 1 + blockLength (depth + 1) .plain s
          else 1 + blockLength depth .plain s
      | .star =>
          if c = '*' then 1 + blockLength depth .star s
          else if c = '/' then
            match depth with
            | 0 => 1
            | 1 => 1
            | depth + 2 => 1 + blockLength (depth + 1) .plain s
          else 1 + blockLength depth .plain s

def wholeLineLength (s : List Char) : Nat :=
  let n := lineLength s
  if n < s.length then n + 1 else n

def commentLength : List Char -> Nat
  | '/' :: '/' :: '/' :: '/' :: s => 4 + lineLength s
  | '/' :: '/' :: '/' :: s => 3 + wholeLineLength s
  | '/' :: '/' :: '!' :: s => 3 + wholeLineLength s
  | '/' :: '/' :: s => 2 + lineLength s
  | '/' :: '*' :: s => 2 + blockLength 1 .plain s
  | _ => 0

/-- A word, which may be a raw identifier. -/
def rustWord (s : List Char) : List Char :=
  match s with
  | 'r' :: '#' :: r =>
      match wordAt r with
      | [] => ['r']
      | w => 'r' :: '#' :: w
  | _ => wordAt s

def lexis : Lexis where
  commentLength := commentLength
  wordAt := rustWord

/-- Keywords: a `!` after one of them is a negation and calls no macro. -/
def keywords : List String :=
  ["as", "async", "await", "break", "const", "continue", "dyn", "else", "enum", "extern", "false",
    "fn", "for", "if", "impl", "in", "let", "loop", "match", "mod", "move", "mut", "pub", "ref",
    "return", "static", "struct", "trait", "true", "type", "unsafe", "use", "where", "while",
    "yield"]

/-- Words a function item may begin with. -/
def itemWords : List String :=
  ["pub", "crate", "async", "default", "const", "unsafe", "extern", "safe", "gen", "fn"]

/-- Words that may stand between the visibility and `fn`. -/
def modifiers : List String :=
  ["async", "default", "const", "unsafe", "safe", "gen"]

/-- The length of a raw string after its opening letters: hashes, quotes and contents. -/
def rawLength (s : List Char) : Nat :=
  let hashes := lengthWhile (· == '#') s
  let close := '"' :: List.replicate hashes '#'
  hashes + 1 + lengthThrough close (s.drop (hashes + 1))

/-- The length of a character, or of the quote and name of a lifetime. -/
def characterLength : List Char -> Nat
  | '\'' :: '\\' :: s => 1 + escapedLength '\'' ('\\' :: s)
  | '\'' :: c :: '\'' :: _ => if c = '\'' then 2 else 3
  | '\'' :: s => 1 + lengthWhile isWordChar s
  | _ => 0

/-- The length of the literal a text begins with; zero if it begins with none. -/
def literalLength (s : List Char) : Nat :=
  match s with
  | '"' :: _ => quotedLength s
  | '\'' :: _ => characterLength s
  | _ =>
      let w := (wordAt s).length
      let rest := s.drop w
      let lead := String.ofList (wordAt s)
      match rest with
      | '"' :: _ =>
          if lead == "b" || lead == "c" then w + quotedLength rest
          else if lead == "r" || lead == "br" || lead == "cr" then w + rawLength rest
          else 0
      | '\'' :: _ => if lead == "b" then w + characterLength rest else 0
      | '#' :: _ =>
          let hashes := lengthWhile (· == '#') rest
          if (lead == "r" || lead == "br" || lead == "cr") &&
              (rest.drop hashes).head? == some '"' then
            w + rawLength rest
          else 0
      | _ => 0

/-- The readers for what stands between brackets, at one depth of nesting. -/
structure Rules where
  /-- Items, statements and expressions between brackets. -/
  bracketed : Parser Unit
  /-- Balanced tokens between brackets, without items. -/
  inert : Parser Unit
  /-- Generic parameters or arguments. -/
  angled : Parser Unit

/-- Read an opening bracket, what `content` reads again and again, and the closing bracket. -/
def between (content : Parser Unit) : Parser Unit := do
  lexis.trivia
  let close ← match (← remaining) with
    | '(' :: _ => pure ")"
    | '[' :: _ => pure "]"
    | '{' :: _ => pure "\x7d"
    | _ => fail
  take 1
  many content
  lexis.symbol close

def isOpening (c : Char) : Bool :=
  c == '(' || c == '[' || c == '{'

def isClosing (c : Char) : Bool :=
  c == ')' || c == ']' || c == '}'

/-- Read one token, with `nested` for what stands between brackets. -/
def plainToken (nested : Parser Unit) : Parser Unit := do
  lexis.trivia
  let s ← remaining
  match s with
  | [] => fail
  | c :: _ =>
      let literal := literalLength s
      if literal != 0 then take literal
      else if isOpening c then orElse nested (take 1)
      else if isClosing c then fail
      else if isWordChar c then
        let w := rustWord s
        take (if w.isEmpty then lengthWhile isWordChar s else w.length)
      else take 1

/-- Read one token of a type, where angle brackets pair up. -/
def typeToken (rules : Rules) : Parser Unit := do
  let s ← lexis.ahead
  if begins s "->" || begins s "=>" then
    lexis.trivia
    take 2
  else if begins s "<" then
    rules.angled
  else if begins s ">" then
    fail
  else
    plainToken rules.bracketed

/-- Read generic parameters or arguments. -/
def angled (rules : Rules) : Parser Unit := do
  lexis.symbol "<"
  many (typeToken rules)
  lexis.symbol ">"

/-- Read what may stand before the name of a function item. -/
def functionHead (rules : Rules) : Parser Unit := do
  if ← lexis.keyword? "pub" then
    if ← lexis.sees "(" then
      rules.inert
  else
    let _ ← lexis.keyword? "crate"
  many do
    let w := String.ofList (← lexis.wordAhead)
    if w == "extern" then
      let _ ← lexis.word
      let s ← lexis.ahead
      let n := literalLength s
      if n != 0 then
        lexis.trivia
        take n
    else
      guard (modifiers.contains w)
      let _ ← lexis.word
  lexis.keyword "fn"

/-- Read a function item; without a body it is only a signature and no function node. -/
def functionItem (rules : Rules) : Parser Unit :=
  lexis.node do
    functionHead rules
    let (_, name) ← lexis.named lexis.word
    if ← lexis.sees "<" then
      rules.angled
    guard (← lexis.sees "(")
    rules.bracketed
    many do
      let s ← lexis.ahead
      guard (!(begins s "\x7b") && !(begins s ";"))
      typeToken rules
    if ← lexis.sees "\x7b" then
      rules.bracketed
      pure (some (.function, some name), ())
    else
      pure (none, ())

/-- Read a macro call or definition after whose name a `!` stands. -/
def macroCall (rules : Rules) : Parser Unit := do
  let w := String.ofList (← lexis.word)
  guard (!keywords.contains w)
  lexis.symbol "!"
  guard (!(begins (← remaining) "="))
  if (← lexis.wordAhead).isEmpty then
    rules.inert
  else
    let _ ← lexis.word
    rules.inert

def attributeItem (rules : Rules) : Parser Unit := do
  lexis.symbol "#"
  let _ ← lexis.symbol? "!"
  guard (← lexis.sees "[")
  rules.inert

/-- Read one item, macro call, attribute or token. -/
def item (rules : Rules) : Parser Unit := do
  let s ← lexis.ahead
  match s with
  | '#' :: _ => orElse (attributeItem rules) (plainToken rules.bracketed)
  | _ =>
      let w := rustWord s
      if w.isEmpty || literalLength s != 0 then
        plainToken rules.bracketed
      else if itemWords.contains (String.ofList w) then
        orElse (functionItem rules) (plainToken rules.bracketed)
      else
        orElse (macroCall rules) (plainToken rules.bracketed)

/-- The readers for a nesting of at most the given depth. -/
def rules : (depth : Nat) -> Rules
  | 0 => ⟨fail, fail, fail⟩
  | depth + 1 =>
      { bracketed := fun s => between (item (rules depth)) s
        inert := fun s => between (plainToken (rules depth).inert) s
        angled := fun s => angled (rules depth) s }

def interpreterLineLength (s : List Char) : Nat :=
  match s with
  | '#' :: '!' :: r =>
      match r.dropWhile (fun c => c == ' ' || c == '\t') with
      | '[' :: _ => 0
      | _ => lineLength s
  | _ => 0

def sourceFile (rules : Rules) : Parser Unit := do
  take (interpreterLineLength (← remaining))
  many (orElse (item rules) (do
    lexis.trivia
    guard (!(← remaining).isEmpty)
    take 1))
  lexis.trivia

def parse (source : List Char) : Tree :=
  wholeTree (sourceFile (rules (source.length + 1))) source

end Rust

end Syntax

end TodoIndex
