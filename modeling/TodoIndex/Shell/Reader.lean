import TodoIndex.Shell.Command

/-!
# Reading scripts

A reader for the POSIX shell language.  A text that stands in the script behind `<<` begins on
the next line; it is read when that line is reached, and the command refers to it by its
number.
-/

namespace TodoIndex

namespace Shell

/-- A text that is still to be found in the script. -/
structure Pending where
  ending : List Char
  /-- Whether the text is taken as it is. -/
  literal : Bool
  /-- Whether tabulators at the begin of its lines do not count. -/
  stripped : Bool

/-- Where the reader is. -/
structure Place where
  rest : List Char
  /-- How many line feeds the whole script has. -/
  feeds : Nat
  /-- How many texts are referred to. -/
  count : Nat
  pending : List Pending
  /-- The texts that were found, with the word whether each is taken as it is. -/
  found : List (Bool × List Char)

/-- A step of the reader; it fails where the script is malformed. -/
abbrev Reading := StateT Place Option

namespace Reading

def rest : Reading (List Char) :=
  return (← get).rest

def setRest (s : List Char) : Reading Unit :=
  modify fun place => { place with rest := s }

def line : Reading Nat :=
  return (← get).feeds + 1 - (← get).rest.count '\n'

end Reading

open Reading

def isNameStart (c : Char) : Bool :=
  ('a' <= c && c <= 'z') || ('A' <= c && c <= 'Z') || c = '_'

def isDigit (c : Char) : Bool :=
  '0' <= c && c <= '9'

def isNameChar (c : Char) : Bool :=
  isNameStart c || isDigit c

def isEnd (c : Char) : Bool :=
  " \t\n;&|<>()".toList.contains c

/-- Whether a character cannot belong to a word of the language itself. -/
def isSpecial (c : Char) : Bool :=
  isEnd c || "'\"\\$".toList.contains c || c.toNat = 96

def skipBlanksIn : List Char -> List Char
  | ' ' :: s => skipBlanksIn s
  | '\t' :: s => skipBlanksIn s
  | '\\' :: '\n' :: s => skipBlanksIn s
  | s => s

def skipBlanks : Reading Unit := do
  match skipBlanksIn (← rest) with
  | '#' :: s => setRest (s.dropWhile (· != '\n'))
  | s => setRest s

/-- The first line of a text and what follows it. -/
def splitLine (s : List Char) : List Char × List Char :=
  (s.takeWhile (· != '\n'), (s.dropWhile (· != '\n')).drop 1)

/-- The lines up to the one that ends a text. -/
def takeText (mark : Pending) : (fuel : Nat) -> List Char -> List Char × List Char
  | 0, s => ([], s)
  | _, [] => ([], [])
  | fuel + 1, s =>
      let (line, after) := splitLine s
      let line := if mark.stripped then line.dropWhile (· = '\t') else line
      if line = mark.ending then ([], after)
      else
        let (more, after) := takeText mark fuel after
        (line ++ '\n' :: more, after)

/-- Find the texts that begin on this line. -/
def takeTexts : List Pending -> Reading Unit
  | [] => modify fun place => { place with pending := [] }
  | mark :: marks => do
      let s ← rest
      let (body, after) := takeText mark (s.length + 1) s
      modify fun place =>
        { place with rest := after, found := place.found ++ [(mark.literal, body)] }
      takeTexts marks

/-- Skip blanks, comments and line ends. -/
def skipLines : (fuel : Nat) -> Reading Unit
  | 0 => failure
  | fuel + 1 => do
      skipBlanks
      match ← rest with
      | '\n' :: s =>
          setRest s
          takeTexts (← get).pending
          skipLines fuel
      | _ => pure ()

/-- The word of the language itself that stands here, or nothing. -/
def keyword : Reading (List Char) :=
  return (← rest).takeWhile (!isSpecial ·)

/-- Skip a word of the language that has to stand here. -/
def expect (word : String) : Reading Unit := do
  skipBlanks
  if (← keyword) = word.toList then setRest ((← rest).drop word.length) else failure

/-- Skip a character that has to stand here. -/
def expectChar (c : Char) : Reading Unit := do
  match ← rest with
  | d :: s => if d = c then setRest s else failure
  | [] => failure

def endWords : List String :=
  ["then", "do", "done", "fi", "elif", "else", "esac", "\x7d"]

/-- Whether no further command stands here. -/
def atEnd : Reading Bool := do
  match ← rest with
  | [] => return true
  | ')' :: _ => return true
  | ';' :: ';' :: _ => return true
  | _ => return endWords.any ((← keyword) = ·.toList)

/-- A text between single quotes. -/
def takeSingle : Reading (List Char) := do
  let s ← rest
  match s.dropWhile (· != '\'') with
  | _ :: after =>
      setRest after
      return s.takeWhile (· != '\'')
  | [] => failure

/-- The text of an expression up to its two closing parentheses. -/
def splitExpression : (depth : Nat) -> List Char -> Option (List Char × List Char)
  | _, [] => none
  | 0, ')' :: ')' :: s => some ([], s)
  | 0, ')' :: _ => none
  | depth + 1, ')' :: s => (splitExpression depth s).map fun (e, after) => (')' :: e, after)
  | depth, '(' :: s => (splitExpression (depth + 1) s).map fun (e, after) => ('(' :: e, after)
  | depth, c :: s => (splitExpression depth s).map fun (e, after) => (c :: e, after)

/-- The text of a command up to its closing accent. -/
def splitAccent : List Char -> Option (List Char × List Char)
  | [] => none
  | '\\' :: c :: s =>
      let kept := if c = '$' || c = '\\' || c.toNat = 96 then [c] else ['\\', c]
      (splitAccent s).map fun (body, after) => (kept ++ body, after)
  | c :: s =>
      if c.toNat = 96 then some ([], s)
      else (splitAccent s).map fun (body, after) => (c :: body, after)

def isParameterSign (c : Char) : Bool :=
  "@*#?$!-".toList.contains c

/-- The name of a parameter between braces. -/
def takeName : Reading (List Char) := do
  match ← rest with
  | [] => failure
  | c :: s =>
      if isParameterSign c then
        setRest s
        return [c]
      else if isDigit c then
        setRest (s.dropWhile isDigit)
        return c :: s.takeWhile isDigit
      else if isNameStart c then
        setRest (s.dropWhile isNameChar)
        return c :: s.takeWhile isNameChar
      else failure

/-- Whether a backslash between double quotes takes the meaning of a character away. -/
def isEscapable (closing : Option Char) (c : Char) : Bool :=
  c = '$' || c = '\\' || c.toNat = 96 || some c = closing

/-- The number before a redirection, if there is one, and what follows it. -/
def redirectStart (s : List Char) : Option (Option Nat × List Char) :=
  let digits := s.takeWhile isDigit
  let stream := if digits = [] then none
    else some (digits.foldl (fun n c => n * 10 + (c.toNat - '0'.toNat)) 0)
  match s.dropWhile isDigit with
  | '<' :: after => some (stream, '<' :: after)
  | '>' :: after => some (stream, '>' :: after)
  | _ => none

def assignmentName? (s : List Char) : Option (List Char × List Char) :=
  match s with
  | c :: _ =>
      if isNameStart c then
        match s.dropWhile isNameChar with
        | '=' :: after => some (s.takeWhile isNameChar, after)
        | _ => none
      else none
  | [] => none

def definitionName? (s : List Char) : Option (List Char × List Char) :=
  match s with
  | c :: _ =>
      if isNameStart c then
        match skipBlanksIn (s.dropWhile isNameChar) with
        | '(' :: after =>
            match skipBlanksIn after with
            | ')' :: after => some (s.takeWhile isNameChar, after)
            | _ => none
        | _ => none
      else none
  | [] => none

/-- The characters of a word, if it has no other pieces. -/
def plainText : Word -> List Char
  | [] => []
  | .plain s _ :: pieces => s ++ plainText pieces
  | _ :: pieces => plainText pieces

def hasQuoted : Word -> Bool
  | [] => false
  | .plain _ quoted :: pieces => quoted || hasQuoted pieces
  | _ :: pieces => hasQuoted pieces

/-- Whether a piece stands for all arguments, each of which stays a word. -/
def isAll : Piece -> Bool
  | .parameter ['@'] _ true => true
  | _ => false

mutual

/-- Read the pieces of a word; between braces a closing brace ends it. -/
def readPieces (braced : Bool) : (fuel : Nat) -> Reading Word
  | 0 => failure
  | fuel + 1 => do
      match ← rest with
      | [] => return []
      | '\'' :: s =>
          setRest s
          let text ← takeSingle
          return .plain text true :: (← readPieces braced fuel)
      | '"' :: s =>
          setRest s
          let inner ← readQuoted (some '"') fuel
          let lead := if inner.any isAll then [] else [.plain [] true]
          return lead ++ inner ++ (← readPieces braced fuel)
      | '\\' :: '\n' :: s =>
          setRest s
          readPieces braced fuel
      | '\\' :: c :: s =>
          setRest s
          return .plain [c] true :: (← readPieces braced fuel)
      | '$' :: s =>
          setRest s
          let piece ← readParameter false fuel
          return piece :: (← readPieces braced fuel)
      | c :: s =>
          if c.toNat = 96 then
            setRest s
            let piece ← readAccent false fuel
            return piece :: (← readPieces braced fuel)
          else if if braced then c = '\x7d' else isEnd c then return []
          else
            setRest s
            return .plain [c] false :: (← readPieces braced fuel)

/-- Read pieces up to a closing character, or up to the end. -/
def readQuoted (closing : Option Char) : (fuel : Nat) -> Reading Word
  | 0 => failure
  | fuel + 1 => do
      match ← rest with
      | [] => if closing.isNone then return [] else failure
      | '\\' :: '\n' :: s =>
          setRest s
          readQuoted closing fuel
      | '\\' :: c :: s =>
          setRest s
          let kept := if isEscapable closing c then [c] else ['\\', c]
          return .plain kept true :: (← readQuoted closing fuel)
      | '$' :: s =>
          setRest s
          let piece ← readParameter true fuel
          return piece :: (← readQuoted closing fuel)
      | c :: s =>
          setRest s
          if some c = closing then return []
          else if c.toNat = 96 then
            let piece ← readAccent true fuel
            return piece :: (← readQuoted closing fuel)
          else return .plain [c] true :: (← readQuoted closing fuel)

/-- Read a command between accents, behind the first one. -/
def readAccent (quoted : Bool) : (fuel : Nat) -> Reading Piece
  | 0 => failure
  | fuel + 1 => do
      match splitAccent (← rest) with
      | none => failure
      | some (body, after) =>
          setRest body
          let command ← readList fuel
          if (← rest).isEmpty then
            setRest after
            return .output command quoted
          else failure

/-- Read what follows a dollar sign. -/
def readParameter (quoted : Bool) : (fuel : Nat) -> Reading Piece
  | 0 => failure
  | fuel + 1 => do
      match ← rest with
      | '(' :: '(' :: s =>
          match splitExpression 0 s with
          | some (expression, after) =>
              setRest expression
              let pieces ← readQuoted none fuel
              setRest after
              return .number pieces quoted
          | none => failure
      | '(' :: s =>
          setRest s
          let body ← readList fuel
          expectChar ')'
          return .output body quoted
      | '\x7b' :: '#' :: '\x7d' :: s =>
          setRest s
          return .parameter ['#'] .keep quoted
      | '\x7b' :: '#' :: s =>
          setRest s
          let name ← takeName
          expectChar '\x7d'
          return .parameter name .length quoted
      | '\x7b' :: s =>
          setRest s
          let name ← takeName
          let change ← readChange fuel
          expectChar '\x7d'
          return .parameter name change quoted
      | c :: s =>
          if isParameterSign c || isDigit c then
            setRest s
            return .parameter [c] .keep quoted
          else if isNameStart c then
            return .parameter (← takeName) .keep quoted
          else return .plain ['$'] quoted
      | [] => return .plain ['$'] quoted

/-- Read what is done with a parameter between braces. -/
def readChange : (fuel : Nat) -> Reading Change
  | 0 => failure
  | fuel + 1 => do
      match ← rest with
      | '\x7d' :: _ => return .keep
      | '#' :: '#' :: s =>
          setRest s
          return .dropLead true (← readPieces true fuel)
      | '#' :: s =>
          setRest s
          return .dropLead false (← readPieces true fuel)
      | '%' :: '%' :: s =>
          setRest s
          return .dropTail true (← readPieces true fuel)
      | '%' :: s =>
          setRest s
          return .dropTail false (← readPieces true fuel)
      | ':' :: c :: s =>
          setRest s
          readSubstitute true c fuel
      | c :: s =>
          setRest s
          readSubstitute false c fuel
      | [] => failure

/-- Read the word that stands for the value of a parameter. -/
def readSubstitute (colon : Bool) (sign : Char) : (fuel : Nat) -> Reading Change
  | 0 => failure
  | fuel + 1 => do
      match sign with
      | '-' => return .default colon (← readPieces true fuel)
      | '=' => return .assign colon (← readPieces true fuel)
      | '?' => return .fail colon (← readPieces true fuel)
      | '+' => return .replace colon (← readPieces true fuel)
      | _ => failure

def readWord : (fuel : Nat) -> Reading Word
  | 0 => failure
  | fuel + 1 => do
      skipBlanks
      match ← readPieces false fuel with
      | [] => failure
      | word => return word

def readRedirect (stream : Option Nat) : (fuel : Nat) -> Reading Redirect
  | 0 => failure
  | fuel + 1 => do
      match ← rest with
      | '<' :: '<' :: '-' :: s =>
          setRest s
          readHere (stream.getD 0) true fuel
      | '<' :: '<' :: s =>
          setRest s
          readHere (stream.getD 0) false fuel
      | '<' :: '&' :: s =>
          setRest s
          return .copy (stream.getD 0) (← readWord fuel)
      | '<' :: s =>
          setRest s
          return .input (stream.getD 0) (← readWord fuel)
      | '>' :: '>' :: s =>
          setRest s
          return .append (stream.getD 1) (← readWord fuel)
      | '>' :: '&' :: s =>
          setRest s
          return .copy (stream.getD 1) (← readWord fuel)
      | '>' :: '|' :: s =>
          setRest s
          return .write (stream.getD 1) (← readWord fuel)
      | '>' :: s =>
          setRest s
          return .write (stream.getD 1) (← readWord fuel)
      | _ => failure

/-- Read the word that ends a text in the script. -/
def readHere (stream : Nat) (stripped : Bool) : (fuel : Nat) -> Reading Redirect
  | 0 => failure
  | fuel + 1 => do
      let word ← readWord fuel
      let place ← get
      let mark : Pending := ⟨plainText word, hasQuoted word, stripped⟩
      set { place with count := place.count + 1, pending := place.pending ++ [mark] }
      return .here stream place.count

def readRedirects : (fuel : Nat) -> Reading (List Redirect)
  | 0 => failure
  | fuel + 1 => do
      skipBlanks
      match redirectStart (← rest) with
      | none => return []
      | some (stream, s) =>
          setRest s
          let redirect ← readRedirect stream fuel
          return redirect :: (← readRedirects fuel)

/-- Read the assignments, words and redirections of a simple command; `named` says whether a
word stood before. -/
def readSimple (named : Bool) : (fuel : Nat) ->
    Reading (List (List Char × Word) × List Word × List Redirect)
  | 0 => failure
  | fuel + 1 => do
      skipBlanks
      let here ← rest
      let assignment := if named then none else assignmentName? here
      match redirectStart here with
      | some (stream, s) =>
          setRest s
          let redirect ← readRedirect stream fuel
          let (assignments, words, redirects) ← readSimple named fuel
          return (assignments, words, redirect :: redirects)
      | none =>
          match assignment with
          | some (name, s) =>
              setRest s
              let value ← readPieces false fuel
              let (assignments, words, redirects) ← readSimple false fuel
              return ((name, value) :: assignments, words, redirects)
          | none =>
              match ← readPieces false fuel with
              | [] => return ([], [], [])
              | word =>
                  let (assignments, words, redirects) ← readSimple true fuel
                  return (assignments, word :: words, redirects)

def readList : (fuel : Nat) -> Reading Command
  | 0 => failure
  | fuel + 1 => do
      skipLines fuel
      if ← atEnd then return .skip
      else
        let first ← readChain fuel
        skipBlanks
        match ← rest with
        | ';' :: ';' :: _ => return first
        | ';' :: s =>
            setRest s
            return .sequence first (← readList fuel)
        | '&' :: s =>
            setRest s
            return .sequence (.background first) (← readList fuel)
        | '\n' :: _ => return .sequence first (← readList fuel)
        | _ => return first

def readChain : (fuel : Nat) -> Reading Command
  | 0 => failure
  | fuel + 1 => do
      let first ← readPipeline fuel
      readChainAfter first fuel

def readChainAfter (first : Command) : (fuel : Nat) -> Reading Command
  | 0 => failure
  | fuel + 1 => do
      skipBlanks
      match ← rest with
      | '&' :: '&' :: s =>
          setRest s
          skipLines fuel
          let second ← readPipeline fuel
          readChainAfter (.both first second) fuel
      | '|' :: '|' :: s =>
          setRest s
          skipLines fuel
          let second ← readPipeline fuel
          readChainAfter (.either first second) fuel
      | _ => return first

def readPipeline : (fuel : Nat) -> Reading Command
  | 0 => failure
  | fuel + 1 => do
      skipBlanks
      if (← keyword) = ['!'] then
        setRest ((← rest).drop 1)
        return .pipe true (← readStages fuel)
      else
        match ← readStages fuel with
        | [stage] => return stage
        | stages => return .pipe false stages

def readStages : (fuel : Nat) -> Reading (List Command)
  | 0 => failure
  | fuel + 1 => do
      let stage ← readCommand fuel
      skipBlanks
      match ← rest with
      | '|' :: '|' :: _ => return [stage]
      | '|' :: s =>
          setRest s
          skipLines fuel
          return stage :: (← readStages fuel)
      | _ => return [stage]

def readCommand : (fuel : Nat) -> Reading Command
  | 0 => failure
  | fuel + 1 => do
      skipBlanks
      match ← rest, String.ofList (← keyword) with
      | '(' :: s, _ =>
          setRest s
          let body ← readList fuel
          expectChar ')'
          readBehind (.subshell body) fuel
      | s, "\x7b" =>
          setRest (s.drop 1)
          let body ← readList fuel
          expect "\x7d"
          readBehind body fuel
      | s, "if" =>
          setRest (s.drop 2)
          readBehind (← readBranch fuel) fuel
      | s, "while" =>
          setRest (s.drop 5)
          readBehind (← readLoop false fuel) fuel
      | s, "until" =>
          setRest (s.drop 5)
          readBehind (← readLoop true fuel) fuel
      | s, "for" =>
          setRest (s.drop 3)
          readBehind (← readEach fuel) fuel
      | s, "case" =>
          setRest (s.drop 4)
          readBehind (← readChoice fuel) fuel
      | s, _ =>
          match definitionName? s with
          | some (name, s) =>
              setRest s
              skipLines fuel
              return .define name (← readCommand fuel)
          | none =>
              let line ← line
              match ← readSimple false fuel with
              | ([], [], []) => failure
              | (assignments, words, redirects) =>
                  return .simple line assignments words redirects

/-- Read the redirections behind a command that has an end of its own. -/
def readBehind (body : Command) : (fuel : Nat) -> Reading Command
  | 0 => failure
  | fuel + 1 => do
      match ← readRedirects fuel with
      | [] => return body
      | redirects => return .redirected body redirects

/-- Read the rest of a branch behind its first word. -/
def readBranch : (fuel : Nat) -> Reading Command
  | 0 => failure
  | fuel + 1 => do
      let condition ← readList fuel
      expect "then"
      let yes ← readList fuel
      match String.ofList (← keyword) with
      | "elif" =>
          setRest ((← rest).drop 4)
          return .branch condition yes (← readBranch fuel)
      | "else" =>
          setRest ((← rest).drop 4)
          let no ← readList fuel
          expect "fi"
          return .branch condition yes no
      | _ =>
          expect "fi"
          return .branch condition yes .skip

/-- Read the rest of a loop behind its first word. -/
def readLoop (negated : Bool) : (fuel : Nat) -> Reading Command
  | 0 => failure
  | fuel + 1 => do
      let condition ← readList fuel
      expect "do"
      let body ← readList fuel
      expect "done"
      return .loop negated condition body

def readWords : (fuel : Nat) -> Reading (List Word)
  | 0 => failure
  | fuel + 1 => do
      skipBlanks
      match ← readPieces false fuel with
      | [] => return []
      | word => return word :: (← readWords fuel)

/-- Read the rest of a loop over words behind its first word. -/
def readEach : (fuel : Nat) -> Reading Command
  | 0 => failure
  | fuel + 1 => do
      skipBlanks
      let name ← takeName
      skipLines fuel
      let words ← if (← keyword) = ['i', 'n'] then do
          setRest ((← rest).drop 2)
          pure (some (← readWords fuel))
        else pure none
      match ← rest with
      | ';' :: s => setRest s
      | _ => pure ()
      skipLines fuel
      expect "do"
      let body ← readList fuel
      expect "done"
      return .each name words body

/-- Read the patterns before a closing parenthesis. -/
def readPatterns : (fuel : Nat) -> Reading (List Word)
  | 0 => failure
  | fuel + 1 => do
      let pattern ← readWord fuel
      skipBlanks
      match ← rest with
      | '|' :: s =>
          setRest s
          return pattern :: (← readPatterns fuel)
      | ')' :: s =>
          setRest s
          return [pattern]
      | _ => failure

def readItems : (fuel : Nat) -> Reading (List (List Word × Command))
  | 0 => failure
  | fuel + 1 => do
      skipLines fuel
      if (← keyword) = "esac".toList then
        expect "esac"
        return []
      else
        match ← rest with
        | '(' :: s => setRest s
        | _ => pure ()
        let patterns ← readPatterns fuel
        let body ← readList fuel
        match ← rest with
        | ';' :: ';' :: s => setRest s
        | _ => pure ()
        return (patterns, body) :: (← readItems fuel)

/-- Read the rest of a choice behind its first word. -/
def readChoice : (fuel : Nat) -> Reading Command
  | 0 => failure
  | fuel + 1 => do
      let word ← readWord fuel
      skipLines fuel
      expect "in"
      return .choice word (← readItems fuel)

end

def wordsOf (texts : List (Bool × List Char)) : Option (List Word) :=
  texts.mapM fun (literal, s) =>
    if literal then some [.plain s true]
    else ((readQuoted none (s.length + 1)).run ⟨s, 0, 0, [], []⟩).map Prod.fst

def Script.ofText? (s : List Char) : Option Script :=
  match (readList (8 * s.length + 64)).run ⟨s, s.count '\n', 0, [], []⟩ with
  | some (body, place) =>
      if place.rest.isEmpty then (wordsOf place.found).map fun texts => ⟨body, texts⟩ else none
  | none => none

end Shell

end TodoIndex
