import TodoIndex.Syntax.Script.Expression

/-!
# Statements and declarations

Where a text is no statement that is known here, its tokens are passed over one by one,
and groups in brackets are searched for statements again.
-/

namespace TodoIndex

namespace Syntax

namespace Script

open TodoIndex.Syntax.Parser

/-- Read a semicolon, if one comes next. -/
def semicolon : Parser Unit := do
  let _ ← lexis.symbol? ";"

/-- Read a statement, or a token where there is none. -/
def item (rules : Rules) : Parser Unit :=
  orElse rules.statement rules.loose

/-- Read one token, or a group in brackets. -/
def loose (rules : Rules) : Parser Unit := do
  lexis.trivia
  let s ← remaining
  match s with
  | [] => fail
  | c :: _ =>
      let groupOf := fun close : String => orElse (do
        take 1
        many (item rules)
        lexis.symbol close) (take 1)
      if isQuote c then take (quotedLength s)
      else if c == backquote then orElse (template rules) (take 1)
      else if c == '(' then groupOf ")"
      else if c == '[' then groupOf "]"
      else if c == '{' then groupOf "\x7d"
      else if c == ')' || c == ']' || c == '}' then fail
      else
        let w := wordOf s
        take (if w.isEmpty then max 1 (lengthWhile isWordChar s) else w.length)

/-- Read statements between braces. -/
def block (rules : Rules) : Parser Unit := do
  lexis.symbol "\x7b"
  many (item rules)
  lexis.symbol "\x7d"

/-- Read an expression in parentheses. -/
def condition (rules : Rules) : Parser Unit :=
  parenthesised rules

/-- Read one variable with its initial value. -/
def declarator (rules : Rules) : Parser Unit :=
  lexis.node do
    let (_, name) ← lexis.named (lexis.plainNode rules.pattern)
    if rules.dialect.typed then
      let _ ← lexis.symbol? "!"
    typeMark rules
    if (← lexis.sees "=") && !(← lexis.sees "==") && !(← lexis.sees "=>") then
      lexis.symbol "="
      lexis.node do
        let isFunction ← rules.assignment true
        pure (if isFunction then none else some (.other, none), ())
    pure (some (.declarator, some name), ())

/-- Read variables between commas. -/
def declarators (rules : Rules) : Parser Unit :=
  repeatWhile do
    declarator rules
    lexis.symbol? ","

def variableWords : List String :=
  ["var", "let", "const", "using"]

/-- Read the words that begin a declaration of variables. -/
def variableKeyword : Parser Unit := do
  let _ ← optional do
    lexis.keyword "await"
    guard ((← lexis.wordAhead) == "using".toList)
  let w := String.ofList (← lexis.word)
  guard (variableWords.contains w)
  let s ← lexis.ahead
  guard (!(wordOf s).isEmpty || begins s "[" || begins s "\x7b")
  guard (!(w == "using" && (← lexis.lineEndsAhead)))

def variableList (rules : Rules) : Parser Unit := do
  variableKeyword
  declarators rules

/--
Read a function declaration or signature, from `async` or `function` on.

A signature is no function; neither is a generator without a name, which is a value.
-/
def functionDeclaration (rules : Rules) (operatorMayFollow : Bool) : Parser Unit :=
  lexis.node do
    let _ ← lexis.keyword? "async"
    lexis.keyword "function"
    let generator ← lexis.symbol? "*"
    let name ←
      if (← lexis.wordAhead).isEmpty then
        pure none
      else
        let (_, name) ← lexis.named lexis.word
        pure (some name)
    typeParameters rules
    parameters rules
    typeMark rules
    if ← lexis.sees "\x7b" then
      functionBody rules operatorMayFollow
      if generator && name.isNone then
        pure (some (.other, none), ())
      else
        pure (functionNode name, ())
    else
      pure (none, ())

/-- Read the head of a loop over the members of a value. -/
def memberLoopHead (rules : Rules) : Parser Unit := do
  orElse
    (do
      variableKeyword
      rules.pattern
      typeMark rules)
    (do
      let _ ← rules.operand true)
  let w := String.ofList (← lexis.word)
  guard (w == "of" || w == "in")
  rules.expression
  lexis.symbol ")"

/-- Read the head of a loop with a start, a condition and a step. -/
def countedLoopHead (rules : Rules) : Parser Unit := do
  if !(← lexis.sees ";") then
    orElse (variableList rules) rules.expression
  lexis.symbol ";"
  if !(← lexis.sees ";") then
    rules.expression
  lexis.symbol ";"
  if !(← lexis.sees ")") then
    rules.expression
  lexis.symbol ")"

/-- Read what may follow the module name of an import or export. -/
def importAttributes (rules : Rules) : Parser Unit := do
  let w := String.ofList (← lexis.wordAhead)
  if (w == "with" || w == "assert") && !(← lexis.lineEndsAhead) then
    let _ ← optional do
      let _ ← lexis.word
      rules.bracketed

def importDeclaration (rules : Rules) : Parser Unit := do
  lexis.keyword "import"
  guard (!(← lexis.sees "(") && !(← lexis.sees "."))
  many do
    let s ← lexis.ahead
    if begins s "\x7b" then
      rules.bracketed
    else if begins s "," || begins s "*" then
      lexis.trivia
      take 1
    else
      let _ ← lexis.word
  if ← lexis.symbol? "=" then
    rules.expression
  else
    quoted
    importAttributes rules
  semicolon

/-- Read the name of the module that names are exported from. -/
def exportSource (rules : Rules) : Parser Unit := do
  lexis.keyword "from"
  quoted
  importAttributes rules

/-- Read the clauses of a `switch`. -/
def clause (rules : Rules) : Parser Unit :=
  orElse
    (do
      lexis.keyword "case"
      let _ ← rules.assignment false
      many do
        lexis.symbol ","
        rules.assignment false
      lexis.symbol ":")
    (orElse
      (do
        lexis.keyword "default"
        lexis.symbol ":")
      (item rules))

/-- Read a declaration that only the dialect with types has. -/
def typedDeclaration (rules : Rules) (w : String) : Parser Unit := do
  guard rules.dialect.typed
  lexis.keyword w
  guard (!(← lexis.lineEndsAhead))
  if w == "type" then
    let _ ← lexis.word
    typeParameters rules
    lexis.symbol "="
    rules.type
    semicolon
  else if w == "interface" then
    let _ ← lexis.word
    typeParameters rules
    if ← lexis.keyword? "extends" then
      rules.type
      many do
        lexis.symbol ","
        rules.type
    rules.bracketed
  else if w == "enum" then
    let _ ← lexis.word
    rules.bracketed
  else if w == "namespace" || w == "module" then
    orElse quoted do
      let _ ← lexis.word
      many do
        lexis.symbol "."
        lexis.word
    if ← lexis.sees "\x7b" then
      rules.block
    else
      semicolon
  else if w == "global" then
    rules.block
  else if w == "declare" then
    guard (!(← lexis.wordAhead).isEmpty)
    rules.statement
  else if w == "abstract" then
    classFrom rules
  else
    fail

def expressionStatement (rules : Rules) : Parser Unit := do
  rules.expression
  semicolon

def exportDeclaration (rules : Rules) (declaration : Parser Unit) : Parser Unit := do
  lexis.keyword "export"
  if ← lexis.keyword? "default" then
    let w := String.ofList (← lexis.wordAhead)
    if w == "function" || (← asyncFunctionAhead) then
      functionDeclaration rules true
      semicolon
    else if w == "class" then
      classFrom rules
    else if ← lexis.sees "@" then
      many (decorator rules)
      rules.statement
    else
      orElse (typedDeclaration rules w) do
        let _ ← rules.assignment true
        semicolon
  else
    let names : Parser Unit := do
      if rules.dialect.typed then
        let _ ← optional do
          lexis.keyword "type"
          guard ((← lexis.sees "\x7b") || (← lexis.sees "*"))
      if ← lexis.symbol? "*" then
        if ← lexis.keyword? "as" then
          orElse quoted do
            let _ ← lexis.word
        exportSource rules
      else
        guard (← lexis.sees "\x7b")
        rules.bracketed
        let _ ← optional (exportSource rules)
      semicolon
    let whole : Parser Unit := do
      lexis.symbol "="
      rules.expression
      semicolon
    let global : Parser Unit := do
      lexis.keyword "as"
      lexis.keyword "namespace"
      let _ ← lexis.word
      semicolon
    orElse names (orElse whole (orElse global declaration))

def wordStatement (rules : Rules) (exported : Bool) (w : String) : Parser Unit := do
  if w == "function" || (← asyncFunctionAhead) then
    functionDeclaration rules (!exported)
  else if w == "class" then
    classFrom rules
  else if w == "if" then
    let _ ← lexis.word
    condition rules
    rules.statement
    if ← lexis.keyword? "else" then
      rules.statement
  else if w == "for" then
    let _ ← lexis.word
    let _ ← lexis.keyword? "await"
    lexis.symbol "("
    orElse (memberLoopHead rules) (countedLoopHead rules)
    rules.statement
  else if w == "while" || w == "with" then
    let _ ← lexis.word
    condition rules
    rules.statement
  else if w == "do" then
    let _ ← lexis.word
    rules.statement
    lexis.keyword "while"
    condition rules
    semicolon
  else if w == "switch" then
    let _ ← lexis.word
    condition rules
    lexis.symbol "\x7b"
    many (clause rules)
    lexis.symbol "\x7d"
  else if w == "try" then
    let _ ← lexis.word
    rules.block
    if ← lexis.keyword? "catch" then
      if ← lexis.symbol? "(" then
        rules.pattern
        typeMark rules
        lexis.symbol ")"
      rules.block
    if ← lexis.keyword? "finally" then
      rules.block
  else if w == "return" || w == "throw" then
    let _ ← lexis.word
    let s ← lexis.ahead
    if !(s.isEmpty || begins s ";" || begins s "\x7d") && !(← lexis.lineEndsAhead) then
      rules.expression
    semicolon
  else if w == "break" || w == "continue" || w == "debugger" then
    let _ ← lexis.word
    if !(← lexis.lineEndsAhead) then
      let _ ← optional lexis.word
    semicolon
  else
    let label : Parser Unit := do
      let _ ← lexis.word
      lexis.symbol ":"
      rules.statement
    let constEnum : Parser Unit := do
      lexis.keyword "const"
      typedDeclaration rules "enum"
    let binding : Parser Unit := do
      variableList rules
      semicolon
    if w == "import" then
      orElse (importDeclaration rules) (expressionStatement rules)
    else if reserved.contains w then
      orElse constEnum (orElse binding (expressionStatement rules))
    else
      orElse label (orElse binding (orElse (typedDeclaration rules w) (expressionStatement rules)))

/-- Read the declaration after `export`. -/
def exportedDeclaration (rules : Rules) : Parser Unit := do
  many (decorator rules)
  let w ← lexis.wordAhead
  guard (!w.isEmpty)
  wordStatement rules true (String.ofList w)

def statement (rules : Rules) : Parser Unit := do
  lexis.trivia
  let s ← remaining
  match s with
  | [] => fail
  | c :: _ =>
      let w := wordOf s
      if w == "export".toList then
        exportDeclaration rules (exportedDeclaration rules)
      else if !w.isEmpty then
        wordStatement rules false (String.ofList w)
      else if c == ';' then
        take 1
      else if c == '{' then
        orElse rules.block (expressionStatement rules)
      else if c == '@' then
        many (decorator rules)
        rules.statement
      else if begins s "<!--" || begins s "-->" then
        take (lengthWhile (!endsLineComment ·) s)
      else
        expressionStatement rules

end Script

end Syntax

end TodoIndex
