import TodoIndex.Syntax.Script.Rules

/-!
# Expressions

Operators are read without regard to their rank: only where an expression ends matters,
and which functions stand in it.  A function that is the whole value of a variable is
kept apart from one that is only part of it, because it goes by the variable's name.
-/

namespace TodoIndex

namespace Syntax

namespace Script

open TodoIndex.Syntax.Parser

def functionNode (name : Option (List Char)) : Option (Kind × Option (List Char)) :=
  some (.function, name)

/--
Read the body of a function and the comments that it takes up.

`operatorMayFollow` says whether the function could be an operand.
-/
def functionBody (rules : Rules) (operatorMayFollow : Bool) : Parser Unit := do
  rules.block
  takenUp rules.dialect operatorMayFollow

def decorator (rules : Rules) : Parser Unit := do
  lexis.symbol "@"
  if ← lexis.sees "(" then
    lexis.symbol "("
    rules.expression
    lexis.symbol ")"
  else
    let _ ← lexis.word
    many do
      lexis.symbol "."
      let _ ← lexis.symbol? "#"
      lexis.word
    if rules.dialect.typed then
      let _ ← optional do
        rules.angled
        guard (← lexis.sees "(")
    if ← lexis.sees "(" then
      lexis.symbol "("
      many do
        let _ ← lexis.symbol? "..."
        let _ ← rules.assignment true
        lexis.symbol? ","
      lexis.symbol ")"

/-- Words that may stand in front of a parameter. -/
def parameterModifiers : List String :=
  ["public", "private", "protected", "readonly", "override"]

def parameter (rules : Rules) : Parser Unit := do
  many (decorator rules)
  if rules.dialect.typed then
    many do
      let w := String.ofList (← lexis.wordAhead)
      guard (parameterModifiers.contains w)
      let _ ← lexis.word
      let s ← lexis.ahead
      guard (!(wordOf s).isEmpty || begins s "[" || begins s "\x7b")
  let _ ← lexis.symbol? "..."
  if (← lexis.wordAhead) == "this".toList then
    lexis.keyword "this"
  else
    rules.pattern
  if rules.dialect.typed then
    let _ ← lexis.symbol? "?"
  typeMark rules
  if (← lexis.sees "=") && !(← lexis.sees "=>") then
    lexis.symbol "="
    let _ ← rules.assignment true

/-- Read the parameters of a function with their brackets. -/
def parameters (rules : Rules) : Parser Unit := do
  lexis.symbol "("
  repeatWhile do
    parameter rules
    lexis.symbol? ","
  lexis.symbol ")"

/-- Read a name that a value is bound to. -/
def bindingName : Parser Unit := do
  let w ← lexis.word
  guard (!reserved.contains (String.ofList w))

/-- Read the initial value of a part of a pattern, if it has one. -/
def patternDefault (rules : Rules) : Parser Unit := do
  if (← lexis.sees "=") && !(← lexis.sees "==") && !(← lexis.sees "=>") then
    lexis.symbol "="
    let _ ← rules.assignment true

/-- Read a property name other than a plain word. -/
def oddPropertyName (rules : Rules) : Parser Unit := do
  lexis.trivia
  let s ← remaining
  match s with
  | '[' :: _ =>
      take 1
      let _ ← rules.assignment true
      lexis.symbol "]"
  | '#' :: _ =>
      take 1
      let _ ← lexis.word
  | c :: d :: _ =>
      if isQuote c then take (quotedLength s)
      else do
        guard (c.isDigit || (c == '.' && d.isDigit))
        take (numberLength s)
  | [c] => do
      guard c.isDigit
      take 1
  | [] => fail

def propertyName (rules : Rules) : Parser Unit := do
  if (← lexis.wordAhead).isEmpty then
    oddPropertyName rules
  else
    let _ ← lexis.word

/-- Read a pattern that binds names. -/
def pattern (rules : Rules) : Parser Unit := do
  lexis.trivia
  match (← remaining) with
  | '[' :: _ =>
      take 1
      repeatWhile do
        if ← lexis.sees "," then
          lexis.symbol? ","
        else
          let _ ← lexis.symbol? "..."
          rules.pattern
          patternDefault rules
          lexis.symbol? ","
      lexis.symbol "]"
  | '{' :: _ =>
      take 1
      repeatWhile do
        if ← lexis.symbol? "..." then
          rules.pattern
        else
          propertyName rules
          if ← lexis.symbol? ":" then
            rules.pattern
          patternDefault rules
        lexis.symbol? ","
      lexis.symbol "\x7d"
  | _ => bindingName

def arrowFunction (rules : Rules) (resultType : Bool) : Parser Unit :=
  lexis.node do
    if (← lexis.wordAhead) == "async".toList then
      let _ ← optional do
        lexis.keyword "async"
        guard (!(← lexis.lineEndsAhead))
        let s ← lexis.ahead
        guard (!begins s "=>" && (!(wordOf s).isEmpty || begins s "(" || begins s "<"))
    if (← lexis.sees "(") || (← lexis.sees "<") then
      typeParameters rules
      parameters rules
      if resultType then
        typeMark rules
    else
      bindingName
    lexis.symbol "=>"
    if ← lexis.sees "\x7b" then
      functionBody rules true
    else
      let _ ← rules.assignment resultType
    pure (functionNode none, ())

/-- Whether an `async` that comes next belongs to a function on the same line. -/
def asyncFunctionAhead : Parser Bool := do
  if (← lexis.wordAhead) == "async".toList then
    canRead do
      lexis.keyword "async"
      guard (!(← lexis.lineEndsAhead))
      lexis.keyword "function"
  else
    pure false

/--
Read a function with the word `function`, which stands for a value.

Generators are no functions in the sense of attribution here.  The answer says whether
it is one.
-/
def functionExpression (rules : Rules) : Parser Bool :=
  lexis.node do
    let _ ← lexis.keyword? "async"
    lexis.keyword "function"
    let generator ← lexis.symbol? "*"
    let name ←
      if (← lexis.wordAhead).isEmpty then
        pure none
      else
        let (_, name) ← lexis.named lexis.word
        pure (some name)
    typeParameters rules
    parameters rules
    typeMark rules
    functionBody rules true
    if generator then
      pure (some (.other, none), false)
    else
      pure (functionNode name, true)

/-- Read the type parameters, parameters, result type and body of a method. -/
def methodRest (rules : Rules) : Parser Unit := do
  typeParameters rules
  parameters rules
  typeMark rules
  functionBody rules false

/-- Whether the text after a word shows that the word is itself a member name. -/
def endsMemberName (s : List Char) : Bool :=
  match s with
  | [] => true
  | c :: _ => "(),:;=\x7d<?!".toList.contains c

/-- Words that may stand in front of a method of an object. -/
def methodModifiers : List String :=
  ["async", "get", "set"]

def objectMember (rules : Rules) : Parser Unit := do
  if ← lexis.symbol? "..." then
    let _ ← rules.assignment true
  else
    lexis.node do
      many do
        let w := String.ofList (← lexis.wordAhead)
        guard (methodModifiers.contains w)
        let _ ← lexis.word
        guard (!endsMemberName (← lexis.ahead))
      let _ ← lexis.symbol? "*"
      let (_, name) ← lexis.named (propertyName rules)
      if (← lexis.sees "(") || (← lexis.sees "<") then
        methodRest rules
        pure (functionNode (some name), ())
      else if ← lexis.symbol? ":" then
        let _ ← rules.assignment true
        pure (none, ())
      else
        patternDefault rules
        pure (none, ())

def object (rules : Rules) : Parser Unit := do
  lexis.symbol "\x7b"
  repeatWhile do
    objectMember rules
    lexis.symbol? ","
  lexis.symbol "\x7d"

/-- Read values between commas, some of which may be left out or spread. -/
def listing (rules : Rules) (opening close : String) : Parser Unit := do
  lexis.symbol opening
  repeatWhile do
    if ← lexis.sees "," then
      lexis.symbol? ","
    else
      let _ ← lexis.symbol? "..."
      let _ ← rules.assignment true
      lexis.symbol? ","
  lexis.symbol close

/-- Words that may stand in front of a member of a class. -/
def memberModifiers (dialect : Dialect) : List String :=
  ["static", "async", "get", "set", "accessor"] ++
    if dialect.typed then
      ["declare", "abstract", "readonly", "override", "public", "private", "protected"]
    else []

def indexSignature (rules : Rules) : Parser Unit := do
  lexis.symbol "["
  let _ ← lexis.word
  lexis.symbol ":"
  rules.type
  lexis.symbol "]"
  typeMark rules

/-- Read the part of a class member from its name on. -/
def memberRest (rules : Rules) : Parser (Option (Kind × Option (List Char)) × Unit) := do
  let _ ← lexis.symbol? "*"
  let (_, name) ← lexis.named (propertyName rules)
  if rules.dialect.typed then
    if !(← lexis.symbol? "?") then
      let _ ← lexis.symbol? "!"
  if (← lexis.sees "(") || (rules.dialect.typed && (← lexis.sees "<")) then
    typeParameters rules
    parameters rules
    typeMark rules
    if ← lexis.sees "\x7b" then
      functionBody rules false
      pure (functionNode (some name), ())
    else
      pure (none, ())
  else
    typeMark rules
    patternDefault rules
    pure (none, ())

/-- Read the words in front of a class member; one that could end the member is left. -/
def memberLeads (rules : Rules) : Parser Unit :=
  many do
    let w := String.ofList (← lexis.wordAhead)
    guard ((memberModifiers rules.dialect).contains w)
    let _ ← lexis.word
    guard (!endsMemberName (← lexis.ahead))
    guard (!endsWithoutSemicolon rules.dialect false (← remaining))

def classMember (rules : Rules) : Parser Unit := do
  let s ← lexis.ahead
  if begins s ";" then
    lexis.symbol ";"
  else if begins s "@" && rules.dialect.typed then
    decorator rules
  else
    let staticBlock : Parser Unit := do
      lexis.keyword "static"
      guard (← lexis.sees "\x7b")
      rules.block
    let index : Parser Unit := do
      guard rules.dialect.typed
      memberLeads rules
      indexSignature rules
    let member : Parser Unit := lexis.node do
      many (decorator rules)
      memberLeads rules
      memberRest rules
    orElse staticBlock (orElse index member)
    let _ ← lexis.symbol? ";"
    if rules.dialect.typed then
      let _ ← lexis.symbol? ","

/-- Read the members of a class with their braces. -/
def classBody (rules : Rules) : Parser Unit := do
  lexis.symbol "\x7b"
  many (classMember rules)
  lexis.symbol "\x7d"

/-- Read a class, from the word `class` on. -/
def classFrom (rules : Rules) : Parser Unit := do
  lexis.keyword "class"
  let w := String.ofList (← lexis.wordAhead)
  if w != "" && w != "extends" && w != "implements" then
    let _ ← lexis.word
  typeParameters rules
  if ← lexis.keyword? "extends" then
    let _ ← rules.operand true
    if rules.dialect.typed && (← lexis.sees "<") then
      rules.angled
  if rules.dialect.typed then
    if ← lexis.keyword? "implements" then
      rules.type
      many do
        lexis.symbol ","
        rules.type
  classBody rules

def callArguments (rules : Rules) : Parser Unit :=
  listing rules "(" ")"

/-- Read what is attached to an operand on the right; the answer says whether anything is. -/
def attachment (rules : Rules) : Parser Unit := do
  let s ← lexis.ahead
  if begins s "?." && !(s.drop 2).head?.any Char.isDigit then
    lexis.symbol "?."
    let next ← lexis.ahead
    if begins next "(" then callArguments rules
    else if begins next "[" then do
      lexis.symbol "["
      rules.expression
      lexis.symbol "]"
    else if next.head? == some backquote then template rules
    else if begins next "<" then do
      rules.angled
      callArguments rules
    else do
      let _ ← lexis.symbol? "#"
      let _ ← lexis.word
  else if begins s "." && !begins s ".." then
    lexis.symbol "."
    let _ ← lexis.symbol? "#"
    let _ ← lexis.word
  else if begins s "[" then
    lexis.symbol "["
    rules.expression
    lexis.symbol "]"
  else if begins s "(" then
    callArguments rules
  else if s.head? == some backquote then
    template rules
  else if begins s "++" || begins s "--" then
    guard (!(← lexis.lineEndsAhead))
    lexis.trivia
    take 2
  else if rules.dialect.typed && begins s "!" && !begins s "!=" then
    guard (!(← lexis.lineEndsAhead))
    lexis.symbol "!"
  else if rules.dialect.typed && begins s "<" then
    typeArguments rules
  else
    fail

/-- Words that take an operand on their right. -/
def operandLeads : List String :=
  ["typeof", "void", "delete"]

def beginsOperand (s : List Char) : Bool :=
  match s with
  | [] => false
  | c :: _ =>
      let w := String.ofList (wordOf s)
      if w != "" then !(["in", "of", "instanceof", "as", "satisfies"].contains w)
      else isQuote c || c == backquote || c.isDigit || "([\x7b/<#!~+-@".toList.contains c ||
        (c == '.' && (s.drop 1).head?.any Char.isDigit)

def wordOperand (rules : Rules) (resultType : Bool) (w : String) : Parser Bool := do
  if w == "function" || (← asyncFunctionAhead) then
    functionExpression rules
  else if operandLeads.contains w then
    let _ ← lexis.word
    let _ ← rules.operand resultType
    pure false
  else if w == "new" then
    let _ ← lexis.word
    if ← lexis.symbol? "." then
      let _ ← lexis.word
      pure false
    else
      let _ ← rules.operand resultType
      pure false
  else if w == "class" then
    lexis.plainNode (classFrom rules)
    pure false
  else
    let arrow : Parser Bool := do
      arrowFunction rules resultType
      pure true
    let awaited : Parser Bool := do
      lexis.keyword "await"
      guard (beginsOperand (← lexis.ahead) && !(← lexis.lineEndsAhead))
      let _ ← rules.operand resultType
      pure false
    let yielded : Parser Bool := do
      lexis.keyword "yield"
      if !(← lexis.lineEndsAhead) then
        let star ← lexis.symbol? "*"
        if star || beginsOperand (← lexis.ahead) then
          let _ ← rules.assignment resultType
      pure false
    let plain : Parser Bool := do
      let _ ← lexis.word
      pure false
    if w == "await" then orElse arrow (orElse awaited plain)
    else if w == "yield" then orElse arrow yielded
    else if reserved.contains w then plain
    else orElse arrow plain

def parenthesised (rules : Rules) : Parser Unit := do
  lexis.symbol "("
  rules.expression
  lexis.symbol ")"

/-- Read an operand; the answer says whether it is a function. -/
def primary (rules : Rules) (resultType : Bool) : Parser Bool := do
  lexis.trivia
  let s ← remaining
  match s with
  | [] => fail
  | c :: r =>
      let w := wordOf s
      let arrow : Parser Bool := do
        arrowFunction rules resultType
        pure true
      let notFunction := fun p : Parser Unit => do
        p
        (pure false : Parser Bool)
      if !w.isEmpty then
        wordOperand rules resultType (String.ofList w)
      else if c == '(' then
        orElse arrow (notFunction (parenthesised rules))
      else if c == '[' then
        notFunction (lexis.plainNode (listing rules "[" "]"))
      else if c == '{' then
        notFunction (lexis.plainNode (object rules))
      else if isQuote c then
        notFunction (take (quotedLength s))
      else if c == backquote then
        notFunction (template rules)
      else if c.isDigit || (c == '.' && r.head?.any Char.isDigit) then
        notFunction (take (numberLength s))
      else if c == '/' then
        notFunction (take (regexLength s))
      else if c == '<' then
        let assertion : Parser Bool := do
          rules.angled
          let _ ← rules.operand resultType
          pure false
        if !rules.dialect.typed then notFunction rules.element
        else if rules.dialect.elements then orElse arrow (notFunction rules.element)
        else orElse arrow assertion
      else if c == '#' then
        notFunction do
          take 1
          let _ ← lexis.word
      else if c == '@' then
        notFunction (lexis.plainNode do
          many (decorator rules)
          classFrom rules)
      else if begins s "++" || begins s "--" then
        notFunction do
          take 2
          let _ ← rules.operand resultType
      else if "!~+-".toList.contains c then
        notFunction do
          take 1
          let _ ← rules.operand resultType
      else
        fail

/-- Read an operand with what is attached to it; the answer says whether it is a bare function. -/
def operand (rules : Rules) (resultType : Bool) : Parser Bool := do
  let isFunction ← primary rules resultType
  let (_, attached) ← withText (many (attachment rules))
  pure (isFunction && attached.isEmpty)

/-- The operators that join two operands, longer ones before those they begin with. -/
def operators : List String :=
  [">>>=", "===", "!==", "**=", "<<=", ">>=", ">>>", "&&=", "||=", "??=", "==", "!=", "<=", ">=",
    "&&", "||", "??", "**", "<<", ">>", "+=", "-=", "*=", "/=", "%=", "&=", "|=", "^=", "<", ">",
    "+", "-", "*", "/", "%", "&", "|", "^", "="]

/-- Read one operator and what stands to its right. -/
def operation (rules : Rules) (resultType : Bool) : Parser Unit := do
  let s ← lexis.ahead
  let w := String.ofList (wordOf s)
  if w == "in" || w == "instanceof" then
    let _ ← lexis.word
    let _ ← rules.operand resultType
  else if rules.dialect.typed && (w == "as" || w == "satisfies") then
    guard (!(← lexis.lineEndsAhead))
    let _ ← lexis.word
    rules.type
  else if begins s "?" && !begins s "??" && !(begins s "?." && !(s.drop 2).head?.any Char.isDigit) then
    lexis.symbol "?"
    let branch := fun mayHaveType => do
      let _ ← rules.assignment mayHaveType
      lexis.symbol ":"
    orElse (branch true) (branch false)
    let _ ← rules.assignment resultType
  else
    guard (!begins s "=>" && !begins s "++" && !begins s "--")
    match operators.find? (begins s) with
    | none => fail
    | some op =>
        lexis.symbol op
        let _ ← rules.operand resultType

/-- Read an expression without commas; the answer says whether it is nothing but a function. -/
def assignment (rules : Rules) (resultType : Bool) : Parser Bool := do
  let isFunction ← operand rules resultType
  let (_, more) ← withText (many (operation rules resultType))
  pure (isFunction && more.isEmpty)

end Script

end Syntax

end TodoIndex
