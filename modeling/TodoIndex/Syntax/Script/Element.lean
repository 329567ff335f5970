import TodoIndex.Syntax.Script.Rules

/-!
# Elements

Elements such as `<a b={c}>text</a>` stand for values.  Their text is no source code, so
nothing in it is a comment; between the parts of a tag and in braces comments are read.  An
element without an end tag reaches to the end of the source.
-/

namespace TodoIndex

namespace Syntax

namespace Script

open TodoIndex.Syntax.Parser

def elementName : Parser Unit := do
  lexis.trivia
  let n := lengthWhile (fun c => isWordChar c || c == '-' || c == ':' || c == '.') (← remaining)
  guard (n != 0)
  take n

/-- Read an optional expression between braces. -/
def embedded (rules : Rules) : Parser Unit := do
  lexis.symbol "\x7b"
  let _ ← lexis.symbol? "..."
  if !(← lexis.sees "\x7d") then
    rules.expression
  lexis.symbol "\x7d"

def elementAttribute (rules : Rules) : Parser Unit := do
  if ← lexis.sees "\x7b" then
    embedded rules
  else
    elementName
    if ← lexis.symbol? "=" then
      lexis.trivia
      let s ← remaining
      match s with
      | '{' :: _ => embedded rules
      | '<' :: _ => rules.element
      | c :: r =>
          guard (isQuote c)
          take (1 + lengthThrough [c] r)
      | [] => fail

def endTagAhead : Parser Bool :=
  canRead do
    lexis.symbol "<"
    lexis.symbol "/"

def elementContents (rules : Rules) : Parser Unit :=
  repeatWhile do
    take (lengthWhile (fun c => c != '<' && c != '{') (← remaining))
    match (← remaining) with
    | '{' :: _ =>
        embedded rules
        pure true
    | '<' :: _ =>
        if ← endTagAhead then
          pure false
        else
          rules.element
          pure true
    | _ => pure false

/-- Read the contents and the end tag of an element. -/
def elementRest (rules : Rules) : Parser Unit := do
  elementContents rules
  if !(← remaining).isEmpty then
    lexis.symbol "<"
    lexis.symbol "/"
    let _ ← optional elementName
    lexis.symbol ">"

def element (rules : Rules) : Parser Unit := do
  lexis.symbol "<"
  if ← lexis.symbol? ">" then
    elementRest rules
  else
    elementName
    if ← lexis.sees "<" then
      rules.angled
    many (elementAttribute rules)
    if ← lexis.symbol? "/" then
      lexis.symbol ">"
    else
      lexis.symbol ">"
      elementRest rules

end Script

end Syntax

end TodoIndex
