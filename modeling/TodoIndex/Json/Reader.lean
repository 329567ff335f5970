import TodoIndex.Json.Value
import TodoIndex.Text.Utf8

/-!
# Reading JSON

A reader for JSON texts.  It works on characters, with nothing in the place of a malformed
part; such a part may stand inside a text only, which then has no value.  A text in which an
escape stands for half a character has no value either.
-/

namespace TodoIndex

namespace Json

/-- What is still to be read. -/
abbrev Rest := List (Option Char)

def isBlank : Option Char -> Bool
  | some ' ' | some '\t' | some '\n' | some '\r' => true
  | _ => false

def skipBlanks (s : Rest) : Rest :=
  s.dropWhile isBlank

/-- One piece of a text. -/
inductive Unit16 where
  | char (c : Char)
  /-- An escape by a number of sixteen bits. -/
  | code (n : Nat)
  | malformed
  deriving DecidableEq, Repr

def hexDigit? : Option Char -> Option Nat
  | some c =>
      if '0' <= c && c <= '9' then some (c.toNat - '0'.toNat)
      else if 'a' <= c && c <= 'f' then some (c.toNat - 'a'.toNat + 10)
      else if 'A' <= c && c <= 'F' then some (c.toNat - 'A'.toNat + 10)
      else none
  | none => none

/-- The number that four hexadecimal digits write. -/
def code? (a b c d : Option Char) : Option Nat := do
  let a <- hexDigit? a
  let b <- hexDigit? b
  let c <- hexDigit? c
  let d <- hexDigit? d
  some (((a * 16 + b) * 16 + c) * 16 + d)

/-- The character that an escape of one letter stands for. -/
def escaped? : Char -> Option Char
  | '"' => some '"'
  | '\\' => some '\\'
  | '/' => some '/'
  | 'b' => some '\x08'
  | 'f' => some '\x0c'
  | 'n' => some '\n'
  | 'r' => some '\r'
  | 't' => some '\t'
  | _ => none

/-- Read a text behind its opening quote. -/
def readUnits : Rest -> Option (List Unit16 × Rest)
  | some '"' :: s => some ([], s)
  | some '\\' :: some 'u' :: a :: b :: c :: d :: s =>
      match code? a b c d with
      | some n => (readUnits s).map fun (units, rest) => (.code n :: units, rest)
      | none => none
  | some '\\' :: some e :: s =>
      match escaped? e with
      | some c => (readUnits s).map fun (units, rest) => (.char c :: units, rest)
      | none => none
  | some '\\' :: _ => none
  | some c :: s =>
      if c.toNat < 32 then none
      else (readUnits s).map fun (units, rest) => (.char c :: units, rest)
  | none :: s => (readUnits s).map fun (units, rest) => (.malformed :: units, rest)
  | [] => none

def isLeadingHalf (n : Nat) : Bool :=
  0xD800 <= n && n <= 0xDBFF

def isTrailingHalf (n : Nat) : Bool :=
  0xDC00 <= n && n <= 0xDFFF

/-- The characters that the pieces of a text stand for. -/
def characters? : List Unit16 -> Option (List Char)
  | [] => some []
  | .char c :: units => (characters? units).map (c :: ·)
  | .malformed :: _ => none
  | .code n :: .code m :: units =>
      if isLeadingHalf n then
        if isTrailingHalf m then
          let c := Char.ofNat (0x10000 + (n - 0xD800) * 0x400 + (m - 0xDC00))
          (characters? units).map (c :: ·)
        else none
      else if isTrailingHalf n then none
      else (characters? (.code m :: units)).map (Char.ofNat n :: ·)
  | .code n :: units =>
      if isLeadingHalf n || isTrailingHalf n then none
      else (characters? units).map (Char.ofNat n :: ·)

/-- Read a text behind its opening quote; the outer `none` says that it is none. -/
def readText (s : Rest) : Option (Option (List Char) × Rest) :=
  (readUnits s).map fun (units, rest) => (characters? units, rest)

def isDigit : Option Char -> Bool
  | some c => '0' <= c && c <= '9'
  | none => false

def valueOf (digits : Rest) : Nat :=
  digits.foldl (fun n c => n * 10 + ((c.getD '0').toNat - '0'.toNat)) 0

def skipDigits (s : Rest) : Option Rest :=
  match s with
  | d :: s => if isDigit d then some (s.dropWhile isDigit) else none
  | [] => none

def skipFraction : Rest -> Option (Bool × Rest)
  | some '.' :: s => (skipDigits s).map fun rest => (true, rest)
  | s => some (false, s)

def skipExponent : Rest -> Option (Bool × Rest)
  | some 'e' :: s | some 'E' :: s =>
      match s with
      | some '+' :: s | some '-' :: s => (skipDigits s).map fun rest => (true, rest)
      | s => (skipDigits s).map fun rest => (true, rest)
  | s => some (false, s)

/-- The digits before a fraction: a single zero or digits that do not begin with one. -/
def readInteger (s : Rest) : Option (Rest × Rest) :=
  let digits := s.takeWhile isDigit
  match digits with
  | [] => none
  | [_] => some (digits, s.dropWhile isDigit)
  | d :: _ => if d = some '0' then none else some (digits, s.dropWhile isDigit)

def readNumber (negative : Bool) (s : Rest) : Option (Json × Rest) := do
  let (digits, s) <- readInteger s
  let (fraction, s) <- skipFraction s
  let (exponent, s) <- skipExponent s
  if negative || fraction || exponent then some (.number, s)
  else some (.natural (valueOf digits), s)

def afterWord? (word : List Char) (s : Rest) : Option Rest :=
  if (word.map some).isPrefixOf s then some (s.drop word.length) else none

def readScalar : Rest -> Option (Json × Rest)
  | some '"' :: s => (readText s).map fun (contents, rest) => (.text contents, rest)
  | some '-' :: s => readNumber true s
  | some 'n' :: s => (afterWord? "ull".toList s).map fun rest => (.null, rest)
  | some 't' :: s => (afterWord? "rue".toList s).map fun rest => (.bool true, rest)
  | some 'f' :: s => (afterWord? "alse".toList s).map fun rest => (.bool false, rest)
  | s => readNumber false s

mutual

/-- Read a value; `fuel` bounds the parts that are read on the way. -/
def readValue : (fuel : Nat) -> Rest -> Option (Json × Rest)
  | 0, _ => none
  | fuel + 1, s =>
      match skipBlanks s with
      | some '[' :: s =>
          match skipBlanks s with
          | some ']' :: s => some (.array [], s)
          | s => (readItems fuel s).map fun (items, rest) => (.array items, rest)
      | some '\x7b' :: s =>
          match skipBlanks s with
          | some '\x7d' :: s => some (.object [], s)
          | s => (readFields fuel s).map fun (fields, rest) => (.object fields, rest)
      | s => readScalar s

/-- Read the items of an array and its closing bracket. -/
def readItems : (fuel : Nat) -> Rest -> Option (List Json × Rest)
  | 0, _ => none
  | fuel + 1, s =>
      match readValue fuel s with
      | none => none
      | some (item, s) =>
          match skipBlanks s with
          | some ',' :: s => (readItems fuel s).map fun (items, rest) => (item :: items, rest)
          | some ']' :: s => some ([item], s)
          | _ => none

/-- Read the fields of an object and its closing brace. -/
def readFields : (fuel : Nat) -> Rest -> Option (List (Option (List Char) × Json) × Rest)
  | 0, _ => none
  | fuel + 1, s =>
      match skipBlanks s with
      | some '"' :: s =>
          match readText s with
          | none => none
          | some (name, s) =>
              match skipBlanks s with
              | some ':' :: s =>
                  match readValue fuel s with
                  | none => none
                  | some (value, s) =>
                      match skipBlanks s with
                      | some ',' :: s =>
                          (readFields fuel s).map fun (fields, rest) =>
                            ((name, value) :: fields, rest)
                      | some '\x7d' :: s => some ([(name, value)], s)
                      | _ => none
              | _ => none
      | _ => none

end

/-- The value that a text writes; nothing may follow it but blanks. -/
def ofSigns? (s : Rest) : Option Json :=
  match readValue (2 * s.length + 2) s with
  | some (value, rest) => if (skipBlanks rest).isEmpty then some value else none
  | none => none

/-- The value that a byte string writes. -/
def ofBytes? (s : Text.Bytes) : Option Json :=
  ofSigns? (Text.Utf8.signs s)

def ofText? (s : List Char) : Option Json :=
  ofSigns? (s.map some)

end Json

end TodoIndex
