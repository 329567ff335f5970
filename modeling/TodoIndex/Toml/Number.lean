import TodoIndex.Toml.Value

/-!
# Numbers of TOML

Whole numbers are written with a sign, or in another base behind a mark; a fraction or an
exponent makes a number a decimal one.  One underline may stand between two digits.
-/

namespace TodoIndex

namespace Toml

def isDigit (c : Char) : Bool :=
  '0' <= c && c <= '9'

def isHexDigit (c : Char) : Bool :=
  isDigit c || ('a' <= c && c <= 'f') || ('A' <= c && c <= 'F')

def isOctalDigit (c : Char) : Bool :=
  '0' <= c && c <= '7'

def isBinaryDigit (c : Char) : Bool :=
  c = '0' || c = '1'

def digitValue (c : Char) : Nat :=
  if isDigit c then c.toNat - '0'.toNat
  else if 'a' <= c then c.toNat - 'a'.toNat + 10
  else c.toNat - 'A'.toNat + 10

def valueOf (base : Nat) (digits : List Char) : Nat :=
  digits.foldl (fun n c => n * base + digitValue c) 0

/-- Read digits behind a digit; an underline has to stand before one. -/
def moreDigits (isDigit : Char -> Bool) : List Char -> Option (List Char × List Char)
  | ['_'] => none
  | '_' :: c :: s =>
      if isDigit c then (moreDigits isDigit s).map fun (digits, rest) => (c :: digits, rest)
      else none
  | c :: s =>
      if isDigit c then (moreDigits isDigit s).map fun (digits, rest) => (c :: digits, rest)
      else some ([], c :: s)
  | [] => some ([], [])

/-- Read digits, of which there must be one. -/
def someDigits (isDigit : Char -> Bool) : List Char -> Option (List Char × List Char)
  | c :: s =>
      if isDigit c then (moreDigits isDigit s).map fun (digits, rest) => (c :: digits, rest)
      else none
  | [] => none

/-- Read the sign of a number, if it has one; say whether it is negative. -/
def readSign : List Char -> Bool × List Char
  | '-' :: s => (true, s)
  | '+' :: s => (false, s)
  | s => (false, s)

/-- Read the digits before a fraction: a single zero or digits that do not begin with one. -/
def readWhole : List Char -> Option (List Char × List Char)
  | '0' :: s => some (['0'], s)
  | s => someDigits isDigit s

/-- Whether a positive decimal number, `n` times ten to the power `exponent`, is beyond the
greatest number of double precision. -/
def isHuge (n : Nat) (exponent : Int) : Bool :=
  let bound := (Nat.pow 2 54 - 1) * Nat.pow 2 970
  let length : Int := (Nat.toDigits 10 n).length
  if n = 0 || length + exponent < 0 then false
  else if length + exponent > 400 then true
  else if 0 <= exponent then bound <= n * Nat.pow 10 exponent.toNat
  else bound * Nat.pow 10 (-exponent).toNat <= n

def readExponent (s : List Char) : Option (Int × List Char) :=
  let (negative, s) := readSign s
  (someDigits isDigit s).map fun (digits, rest) =>
    let n : Int := valueOf 10 digits
    (if negative then -n else n, rest)

/-- A decimal number, if it is not too great. -/
def decimalOf (negative : Bool) (whole fraction : List Char) (exponent : Int)
    (rest : List Char) : Option (Toml × List Char) :=
  if !negative && isHuge (valueOf 10 (whole ++ fraction)) (exponent - fraction.length) then none
  else some (.decimal, rest)

def isExponentLetter (c : Char) : Bool :=
  c = 'e' || c = 'E'

def readBehindFraction (negative : Bool) (whole fraction : List Char) :
    List Char -> Option (Toml × List Char)
  | c :: s =>
      if isExponentLetter c then
        (readExponent s).bind fun (exponent, rest) =>
          decimalOf negative whole fraction exponent rest
      else decimalOf negative whole fraction 0 (c :: s)
  | [] => decimalOf negative whole fraction 0 []

/-- A whole number, if it is not too great. -/
def integerOf (negative : Bool) (n : Nat) (rest : List Char) : Option (Toml × List Char) :=
  some (.integer (if negative then -(n : Int) else n), rest)

/-- Read what follows the digits before a fraction. -/
def readBehindWhole (negative : Bool) (whole : List Char) :
    List Char -> Option (Toml × List Char)
  | '.' :: s =>
      (someDigits isDigit s).bind fun (fraction, rest) =>
        readBehindFraction negative whole fraction rest
  | c :: s =>
      if isExponentLetter c then
        (readExponent s).bind fun (exponent, rest) => decimalOf negative whole [] exponent rest
      else integerOf negative (valueOf 10 whole) (c :: s)
  | [] => integerOf negative (valueOf 10 whole) []

def readNumber : List Char -> Option (Toml × List Char)
  | '0' :: 'x' :: s =>
      (someDigits isHexDigit s).bind fun (digits, rest) => integerOf false (valueOf 16 digits) rest
  | '0' :: 'o' :: s =>
      (someDigits isOctalDigit s).bind fun (digits, rest) => integerOf false (valueOf 8 digits) rest
  | '0' :: 'b' :: s =>
      (someDigits isBinaryDigit s).bind fun (digits, rest) =>
        integerOf false (valueOf 2 digits) rest
  | s =>
      match readSign s with
      | (_, 'i' :: 'n' :: 'f' :: rest) => some (.decimal, rest)
      | (_, 'n' :: 'a' :: 'n' :: rest) => some (.decimal, rest)
      | (negative, s) =>
          (readWhole s).bind fun (whole, rest) => readBehindWhole negative whole rest

end Toml

end TodoIndex
