import TodoIndex.Syntax.Lexeme

/-!
# Lexemes of JavaScript and TypeScript

Words, literals and comments, and the rule that ends a statement without a semicolon.
The rule matters for attribution: after the body of a function it may take up comments
that follow the closing brace, and these then belong to the function.
-/

namespace TodoIndex

namespace Syntax

namespace Script

open TodoIndex.Syntax.Parser

/-- The language variant that is read. -/
structure Dialect where
  typed : Bool
  /-- Whether elements such as `<a></a>` are read. -/
  elements : Bool

def lineEnds (c : Char) : Bool :=
  c == '\n' || c == '\u2028' || c == '\u2029'

def endsLineComment (c : Char) : Bool :=
  lineEnds c || c == '\r'

def backquote : Char := Char.ofNat 96

/-- The length of a word, which may hold escapes. -/
def wordLength : List Char -> Nat
  | '\\' :: 'u' :: '{' :: s => 3 + escapeRest s
  | '\\' :: 'u' :: s => 2 + wordLength s
  | c :: s => if isWordChar c then 1 + wordLength s else 0
  | [] => 0
where
  /-- The length of an escape from inside its braces, and of the word after it. -/
  escapeRest : List Char -> Nat
    | '}' :: s => 1 + wordLength s
    | _ :: s => 1 + escapeRest s
    | [] => 0

def wordOf (s : List Char) : List Char :=
  match s with
  | c :: _ => if isWordStart c || c == '\\' then s.take (wordLength s) else []
  | [] => []

def lexis : Lexis where
  commentLength := slashCommentLength endsLineComment
  wordAt := wordOf

def reserved : List String :=
  ["break", "case", "catch", "class", "const", "continue", "debugger", "default", "delete", "do",
    "else", "enum", "export", "extends", "false", "finally", "for", "function", "if", "import", "in",
    "instanceof", "new", "null", "return", "super", "switch", "throw", "true", "try", "typeof",
    "var", "void", "while", "with"]

/-- The length of a digit run with its fraction, exponent and suffix. -/
def decimalLength (s : List Char) : Nat :=
  let digit := fun c : Char => c.isDigit || c == '_'
  let whole := lengthWhile digit s
  let fraction := match s.drop whole with
    | '.' :: r => 1 + lengthWhile digit r
    | _ => 0
  let exponent := match s.drop (whole + fraction) with
    | e :: sign :: c :: r =>
        if (e == 'e' || e == 'E') && (sign == '+' || sign == '-') && c.isDigit then
          3 + lengthWhile digit r
        else if (e == 'e' || e == 'E') && sign.isDigit then
          1 + lengthWhile digit (sign :: c :: r)
        else 0
    | [e, d] => if (e == 'e' || e == 'E') && d.isDigit then 2 else 0
    | _ => 0
  let sofar := whole + fraction + exponent
  match s.drop sofar with
  | 'n' :: _ => sofar + 1
  | _ => sofar

def numberLength (s : List Char) : Nat :=
  match s with
  | '0' :: c :: _ => if c.isAlpha && c != 'e' && c != 'E' && c != 'n' then lengthWhile isWordChar s
      else decimalLength s
  | _ => decimalLength s

/-- The length of a regular expression body after its opening slash, through its closing slash. -/
def patternLength (inClass : Bool) : List Char -> Nat
  | [] => 0
  | '\\' :: _ :: s => 2 + patternLength inClass s
  | '[' :: s => 1 + patternLength true s
  | ']' :: s => 1 + patternLength false s
  | '/' :: s => if inClass then 1 + patternLength inClass s else 1
  | '\n' :: _ => 0
  | _ :: s => 1 + patternLength inClass s

/-- The length of a regular expression with its flags. -/
def regexLength (s : List Char) : Nat :=
  let body := 1 + patternLength false (s.drop 1)
  body + lengthWhile Char.isAlpha (s.drop body)

/-- The length of template text up to its end or a substitution. -/
def templateTextLength : List Char -> Nat
  | [] => 0
  | '\\' :: _ :: s => 2 + templateTextLength s
  | '$' :: '{' :: _ => 0
  | c :: s => if c = backquote then 0 else 1 + templateTextLength s

/-- White space in the sense of the rule for missing semicolons. -/
def isPlainSpace (c : Char) : Bool :=
  c == ' ' || ('\t' <= c && c <= '\r')

/-- What a run of white space and comments says about a missing semicolon. -/
inductive GapKind where
  /-- A slash that opens no comment follows. -/
  | broken
  /-- The run stopped behind a comment block on one line. -/
  | sameLine
  | open

/--
Pass over white space and comments.

With `throughBlocks` the run goes on behind comment blocks; without, it stops behind one
unless a slash follows it at once.
-/
def passGap (throughBlocks : Bool) : (fuel : Nat) -> (sawLine : Bool) -> List Char ->
    GapKind × List Char
  | 0, _, s => (.open, s)
  | fuel + 1, sawLine, s =>
      match s.dropWhile isPlainSpace with
      | '/' :: '/' :: r => passGap throughBlocks fuel sawLine (r.dropWhile (!lineEnds ·))
      | '/' :: '*' :: r =>
          let n := lengthThrough ['*', '/'] r
          let sawLine := sawLine || (r.take n).any lineEnds
          let behind := r.drop n
          if !throughBlocks && behind.head? != some '/' then
            (if sawLine then .open else .sameLine, behind)
          else
            passGap throughBlocks fuel sawLine behind
      | '/' :: r => (.broken, r)
      | r => (.open, r)

/-- Whether the token at the head of a new line leaves the line before it ended. -/
def lineMayEndBefore (dialect : Dialect) (operatorMayFollow : Bool) (s : List Char) : Bool :=
  match s with
  | [] => true
  | c :: r =>
      if c == backquote || ",;*%><=?^|&/:".toList.contains c then false
      else if c == '(' || c == '[' then
        dialect.typed && !operatorMayFollow
      else if c == '.' then
        !dialect.typed && r.head?.any Char.isDigit
      else if c == '+' then r.head? == some '+'
      else if c == '-' then r.head? == some '-'
      else if c == '!' then r.head? != some '='
      else if c == 'i' then
        match r with
        | 'n' :: t =>
            if !t.head?.any Char.isAlpha then false
            else
              match Text.stripLead? "stanceof".toList t with
              | none => true
              | some u => u.head?.any Char.isAlpha
        | _ => true
      else true

/-- What the rule finds on the rest of a line. -/
def endsOnLine (dialect : Dialect) (operatorMayFollow : Bool) : (fuel : Nat) -> List Char -> Bool
  | 0, _ => false
  | _ + 1, [] => true
  | fuel + 1, c :: s =>
      let afterComment := c == '/'
      let (kind, r) := if afterComment then passGap false (s.length + 2) false (c :: s)
        else (.sameLine, c :: s)
      match kind with
      | .broken => false
      | .open =>
          if (dialect.typed || !operatorMayFollow) && r.head? != some ',' && r.head? != some '=' then
            true
          else
            onward fuel r
      | .sameLine => onward fuel r
where
  /-- The rule at a character that opens no comment. -/
  onward (fuel : Nat) : List Char -> Bool
    | [] => false
    | '}' :: s =>
        !(dialect.typed && (s.dropWhile isPlainSpace).head? == some ':')
    | c :: s =>
        if lineEnds c then
          match passGap true (s.length + 1) false s with
          | (.broken, _) => false
          | (_, r) => lineMayEndBefore dialect operatorMayFollow r
        else if isPlainSpace c then endsOnLine dialect operatorMayFollow fuel s
        else false

/--
Whether a statement may end here without a semicolon.

`operatorMayFollow` says whether what was read so far could also go on with an operator.
-/
def endsWithoutSemicolon (dialect : Dialect) (operatorMayFollow : Bool) (s : List Char) : Bool :=
  endsOnLine dialect operatorMayFollow (s.length + 1) s

/--
Read the comments that a closed function body takes up.

They are the comments up to the first place where a statement may end, if there is one
before the next token.
-/
def takenUp (dialect : Dialect) (operatorMayFollow : Bool) : Parser Unit := do
  let _ ← optional do
    repeatWhile do
      guard (!endsWithoutSemicolon dialect operatorMayFollow (← remaining))
      let _ ← optional blanks
      comment lexis.commentLength
      pure true
    guard (endsWithoutSemicolon dialect operatorMayFollow (← remaining))

end Script

end Syntax

end TodoIndex
