import TodoIndex.Shell.Reader

/-!
# Expressions of the shell

Whole numbers, bindings, and the operators on them with their usual ranks.  An assignment is
an expression as well.
-/

namespace TodoIndex

namespace Shell

namespace Arithmetic

/-- A piece of an expression. -/
inductive Token where
  | number (n : Int)
  | name (s : List Char)
  | sign (s : String)
  deriving DecidableEq, Repr, Inhabited

/-- The signs of operators, longer ones first. -/
def signs : List String :=
  ["<<=", ">>=", "<<", ">>", "<=", ">=", "==", "!=", "&&", "||", "+=", "-=", "*=", "/=", "%=",
    "&=", "|=", "^=", "+", "-", "*", "/", "%", "<", ">", "=", "!", "~", "&", "|", "^", "(", ")",
    "?", ":", ","]

def digitValue (c : Char) : Nat :=
  if isDigit c then c.toNat - '0'.toNat
  else if 'a' <= c && c <= 'f' then c.toNat - 'a'.toNat + 10
  else if 'A' <= c && c <= 'F' then c.toNat - 'A'.toNat + 10
  else 16

def natural? (base : Nat) (digits : List Char) : Option Nat :=
  digits.foldlM (fun n c => if digitValue c < base then some (n * base + digitValue c) else none) 0

/-- The number that a text writes: a sign and digits, in another base behind a mark. -/
def integer? (s : List Char) : Option Int :=
  let (negative, s) := match s with
    | '-' :: s => (true, s)
    | '+' :: s => (false, s)
    | s => (false, s)
  let value := match s with
    | [] => none
    | '0' :: 'x' :: s => natural? 16 s
    | '0' :: 'X' :: s => natural? 16 s
    | '0' :: s => natural? 8 s
    | s => natural? 10 s
  value.map fun n => if negative then -(n : Int) else n

def tokens? : (fuel : Nat) -> List Char -> Option (List Token)
  | _, [] => some []
  | 0, _ => none
  | fuel + 1, c :: s =>
      if " \t\n".toList.contains c then tokens? fuel s
      else if isDigit c then
        let rest := s.dropWhile isNameChar
        match integer? (c :: s.takeWhile isNameChar) with
        | some n => (tokens? fuel rest).map (Token.number n :: ·)
        | none => none
      else if isNameStart c then
        let rest := s.dropWhile isNameChar
        (tokens? fuel rest).map (Token.name (c :: s.takeWhile isNameChar) :: ·)
      else
        match signs.find? fun sign => sign.toList.isPrefixOf (c :: s) with
        | some sign =>
            (tokens? fuel ((c :: s).drop sign.length)).map (Token.sign sign :: ·)
        | none => none

abbrev Variables := List (List Char × List Char)

/-- What is left of an expression, and the assignments that were made. -/
structure Rest where
  tokens : List Token
  assigned : Variables

/-- A step of the evaluation; it fails where the expression has no value. -/
abbrev Eval := StateT Rest Option

def truth (b : Bool) : Int :=
  if b then 1 else 0

/-- The value of an operator with two sides. -/
def combine? (sign : String) (a b : Int) : Option Int :=
  match sign with
  | "+" => some (a + b)
  | "-" => some (a - b)
  | "*" => some (a * b)
  | "/" => if b = 0 then none else some (Int.tdiv a b)
  | "%" => if b = 0 then none else some (Int.tmod a b)
  | "<<" => some (a * Int.pow 2 b.toNat)
  | ">>" => some (Int.fdiv a (Int.pow 2 b.toNat))
  | "<" => some (truth (a < b))
  | ">" => some (truth (b < a))
  | "<=" => some (truth (a <= b))
  | ">=" => some (truth (b <= a))
  | "==" => some (truth (a = b))
  | "!=" => some (truth (a != b))
  | "&" => some (BitVec.ofInt 64 a &&& BitVec.ofInt 64 b).toInt
  | "|" => some (BitVec.ofInt 64 a ||| BitVec.ofInt 64 b).toInt
  | "^" => some (BitVec.ofInt 64 a ^^^ BitVec.ofInt 64 b).toInt
  | "&&" => some (truth (a != 0 && b != 0))
  | "||" => some (truth (a != 0 || b != 0))
  | _ => none

/-- The operators by their ranks, the weakest first. -/
def ranks : List (List String) :=
  [["||"], ["&&"], ["|"], ["^"], ["&"], ["==", "!="], ["<", ">", "<=", ">="], ["<<", ">>"],
    ["+", "-"], ["*", "/", "%"]]

def assignment? (sign : String) : Option (Option String) :=
  if sign = "=" then some none
  else if ["+=", "-=", "*=", "/=", "%=", "<<=", ">>=", "&=", "|=", "^="].contains sign then
    some (some (String.ofList sign.toList.dropLast))
  else none

/-- A value kept to 64 bits. -/
def wrap (n : Int) : Int :=
  (BitVec.ofInt 64 n).toInt

def valueOf (bindings : Variables) (name : List Char) : Eval Int := do
  let assigned := (← get).assigned
  match assigned.lookup name, bindings.lookup name with
  | some s, _ => (integer? s).elim failure pure
  | none, some [] => pure 0
  | none, some s => (integer? s).elim failure pure
  | none, none => pure 0

/-- Take the next piece if it is the wanted sign. -/
def takeSign (sign : String) : Eval Bool := do
  let rest ← get
  match rest.tokens with
  | .sign other :: tokens =>
      if sign = other then
        set { rest with tokens }
        return true
      else return false
  | _ => return false

/-- Give a variable a value. -/
def assign (name : List Char) (n : Int) : Eval Unit :=
  modify fun rest => { rest with assigned := (name, (toString n).toList) :: rest.assigned }

mutual

def evaluate (bindings : Variables) : (fuel : Nat) -> Eval Int
  | 0 => failure
  | fuel + 1 => do
      let rest ← get
      match rest.tokens with
      | .name x :: .sign sign :: tokens =>
          match assignment? sign with
          | some operator =>
              set { rest with tokens }
              let value ← evaluate bindings fuel
              let value ← match operator with
                | none => pure value
                | some operator => do
                    let old ← valueOf bindings x
                    (combine? operator old value).elim failure pure
              assign x (wrap value)
              return wrap value
          | none => evaluateChoice bindings fuel
      | _ => evaluateChoice bindings fuel

/-- The value of a choice between two expressions, or of what needs no choice. -/
def evaluateChoice (bindings : Variables) : (fuel : Nat) -> Eval Int
  | 0 => failure
  | fuel + 1 => do
      let condition ← evaluateRank bindings ranks fuel
      if ← takeSign "?" then
        let yes ← evaluate bindings fuel
        if ← takeSign ":" then
          let no ← evaluate bindings fuel
          return if condition != 0 then yes else no
        else failure
      else return condition

/-- The value of operators of some rank and stronger ones. -/
def evaluateRank (bindings : Variables) : List (List String) -> (fuel : Nat) -> Eval Int
  | _, 0 => failure
  | [], fuel + 1 => evaluateSingle bindings fuel
  | here :: stronger, fuel + 1 => do
      let first ← evaluateRank bindings stronger fuel
      evaluateMore bindings here stronger first fuel

/-- The value of a first side with all operators of one rank behind it. -/
def evaluateMore (bindings : Variables) (here : List String) (stronger : List (List String))
    (first : Int) : (fuel : Nat) -> Eval Int
  | 0 => failure
  | fuel + 1 => do
      let rest ← get
      match rest.tokens with
      | .sign sign :: tokens =>
          if here.contains sign then
            set { rest with tokens }
            let second ← evaluateRank bindings stronger fuel
            let value ← (combine? sign first second).elim failure pure
            evaluateMore bindings here stronger (wrap value) fuel
          else return first
      | _ => return first

/-- The value of an operator with one side, a number, a variable or a parenthesis. -/
def evaluateSingle (bindings : Variables) : (fuel : Nat) -> Eval Int
  | 0 => failure
  | fuel + 1 => do
      let rest ← get
      match rest.tokens with
      | .number n :: tokens =>
          set { rest with tokens }
          return n
      | .name x :: tokens =>
          set { rest with tokens }
          valueOf bindings x
      | .sign sign :: tokens =>
          set { rest with tokens }
          match sign with
          | "-" => return wrap (-(← evaluateSingle bindings fuel))
          | "+" => evaluateSingle bindings fuel
          | "!" => return truth ((← evaluateSingle bindings fuel) = 0)
          | "~" => return -(← evaluateSingle bindings fuel) - 1
          | "(" =>
              let value ← evaluate bindings fuel
              if ← takeSign ")" then return value else failure
          | _ => failure
      | [] => failure

end

/-- The value of an expression and the assignments in it, the last one first. -/
def value? (bindings : Variables) (s : List Char) : Option (Int × Variables) :=
  match tokens? (s.length + 1) s with
  | none => none
  | some [] => some (0, [])
  | some tokens =>
      match (evaluate bindings (16 * tokens.length + 32)).run ⟨tokens, []⟩ with
      | some (n, rest) => if rest.tokens.isEmpty then some (n, rest.assigned) else none
      | none => none

end Arithmetic

end Shell

end TodoIndex
