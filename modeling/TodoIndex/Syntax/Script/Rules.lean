import TodoIndex.Syntax.Script.Lexis

/-!
# Readers of JavaScript and TypeScript at one depth of nesting

A reader for a construct calls the readers for what can nest inside it through a record of
`Rules`; the record for one depth is built from the record for the depth below.
-/

namespace TodoIndex

namespace Syntax

namespace Script

open TodoIndex.Syntax.Parser

/-- The readers for what can nest, at one depth of nesting. -/
structure Rules where
  dialect : Dialect
  bracketed : Parser Unit
  /-- Balanced tokens between angle brackets. -/
  angled : Parser Unit
  type : Parser Unit
  /--
  An expression without commas; the answer says whether it is nothing but a function.
  The argument says whether an arrow function may have a result type.
  -/
  assignment : Bool -> Parser Bool
  /-- An operand with what is attached to it on the right. -/
  operand : Bool -> Parser Bool
  element : Parser Unit
  pattern : Parser Unit
  statement : Parser Unit
  /-- One token, or a group in brackets, where no statement can be read. -/
  loose : Parser Unit
  block : Parser Unit

namespace Rules

def expression (rules : Rules) : Parser Unit := do
  let _ ← rules.assignment true
  many do
    lexis.symbol ","
    rules.assignment true

end Rules

def noRules (dialect : Dialect) : Rules where
  dialect := dialect
  bracketed := fail
  angled := fail
  type := fail
  assignment := fun _ => fail
  operand := fun _ => fail
  element := fail
  pattern := fail
  statement := fail
  loose := fail
  block := fail

/-- Read a template, with the expressions in it. -/
def template (rules : Rules) : Parser Unit := do
  lexis.trivia
  guard ((← remaining).head? == some backquote)
  take 1
  repeatWhile do
    take (templateTextLength (← remaining))
    match (← remaining) with
    | [] => fail
    | '$' :: '{' :: _ =>
        take 2
        rules.expression
        lexis.symbol "\x7d"
        pure true
    | _ =>
        take 1
        pure false

def isQuote (c : Char) : Bool :=
  c == '"' || c == '\''

def quoted : Parser Unit := do
  lexis.trivia
  let s ← remaining
  guard (s.head?.any isQuote)
  take (quotedLength s)

/-- Read one token of a text that is only known to be balanced. -/
def balancedToken (rules : Rules) : Parser Unit := do
  lexis.trivia
  let s ← remaining
  match s with
  | [] => fail
  | c :: _ =>
      if isQuote c then take (quotedLength s)
      else if c == backquote then template rules
      else if c == '(' || c == '[' || c == '{' then rules.bracketed
      else if c == ')' || c == ']' || c == '}' then fail
      else
        let w := wordOf s
        take (if w.isEmpty then max 1 (lengthWhile isWordChar s) else w.length)

/-- Read balanced tokens between brackets. -/
def bracketed (rules : Rules) : Parser Unit := do
  lexis.trivia
  let close ← match (← remaining) with
    | '(' :: _ => pure ")"
    | '[' :: _ => pure "]"
    | '{' :: _ => pure "\x7d"
    | _ => fail
  take 1
  many (balancedToken rules)
  lexis.symbol close

/-- Read balanced tokens between angle brackets. -/
def angled (rules : Rules) : Parser Unit := do
  lexis.symbol "<"
  many do
    let s ← lexis.ahead
    if begins s "=>" then
      lexis.trivia
      take 2
    else if begins s "<" then
      rules.angled
    else
      guard (!begins s ">")
      balancedToken rules
  lexis.symbol ">"

/-- Words that stand in front of a type and leave it a type. -/
def typeLeads : List String :=
  ["keyof", "readonly", "unique", "infer", "typeof", "asserts", "abstract", "new"]

/-- Whether a type operand may begin with a text. -/
def beginsType (s : List Char) : Bool :=
  match s with
  | c :: _ => !(wordOf s).isEmpty || isQuote c || c == backquote || "([\x7b<-".toList.contains c ||
      c.isDigit
  | [] => false

/-- Read what stands between the operators of a type. -/
def typeOperand (rules : Rules) (typeOperandBelow : Parser Unit) : Parser Unit := do
  lexis.trivia
  let s ← remaining
  match s with
  | [] => fail
  | c :: _ =>
      if c == '(' then
        rules.bracketed
        if ← lexis.symbol? "=>" then
          rules.type
      else if c == '<' then
        rules.angled
        rules.bracketed
        lexis.symbol "=>"
        rules.type
      else if c == '{' || c == '[' then
        rules.bracketed
      else if isQuote c then
        take (quotedLength s)
      else if c == backquote then
        template rules
      else if c.isDigit then
        take (numberLength s)
      else if c == '-' then
        take 1
        typeOperandBelow
      else
        let w := String.ofList (← lexis.word)
        let next ← lexis.ahead
        if typeLeads.contains w && beginsType next && !(← lexis.lineEndsAhead) then
          typeOperandBelow
        else
          if w == "import" then
            rules.bracketed
          many do
            guard (!begins (← lexis.ahead) "...")
            lexis.symbol "."
            lexis.word
          if (← lexis.sees "<") && !(← lexis.lineEndsAhead) then
            rules.angled
  many do
    guard (!(← lexis.lineEndsAhead))
    guard (← lexis.sees "[")
    rules.bracketed

/-- Read a type operand; `depth` bounds the words in front of it. -/
def typeOperandUpTo (rules : Rules) : (depth : Nat) -> Parser Unit
  | 0 => fail
  | depth + 1 => typeOperand rules (typeOperandUpTo rules depth)

def type (rules : Rules) : Parser Unit := do
  let operand := typeOperandUpTo rules 64
  let first ← lexis.ahead
  if begins first "|" || begins first "&" then
    lexis.trivia
    take 1
  operand
  repeatWhile do
    let s ← lexis.ahead
    let w := String.ofList (wordOf s)
    if (begins s "|" && !begins s "||" && !begins s "|=") ||
        (begins s "&" && !begins s "&&" && !begins s "&=") then
      lexis.trivia
      take 1
      operand
      pure true
    else if w == "is" && !(← lexis.lineEndsAhead) then
      let _ ← lexis.word
      rules.type
      pure false
    else if w == "extends" && !(← lexis.lineEndsAhead) then
      let _ ← lexis.word
      rules.type
      if ← lexis.symbol? "?" then
        rules.type
        lexis.symbol ":"
        rules.type
      pure true
    else
      fail

/-- Read the arguments that make a generic function a plain one. -/
def typeArguments (rules : Rules) : Parser Unit := do
  lexis.symbol "<"
  rules.type
  many do
    lexis.symbol ","
    rules.type
  lexis.symbol ">"
  let s ← lexis.ahead
  match s with
  | [] => pure ()
  | c :: _ =>
      guard (c == backquote || "()],;:\x7b\x7d".toList.contains c || begins s "?." ||
        begins s "." || String.ofList (wordOf s) == "implements")

/-- Read a colon and a type, if the dialect has types and a colon comes next. -/
def typeMark (rules : Rules) : Parser Unit := do
  if rules.dialect.typed && (← lexis.sees ":") then
    lexis.plainNode do
      lexis.symbol ":"
      rules.type

/-- Read the parameters of a generic construct, if the dialect has types and they come next. -/
def typeParameters (rules : Rules) : Parser Unit := do
  if rules.dialect.typed && (← lexis.sees "<") then
    rules.angled

end Script

end Syntax

end TodoIndex
