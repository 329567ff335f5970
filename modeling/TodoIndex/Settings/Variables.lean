import TodoIndex.Settings.Basic
import TodoIndex.Text.LowerCase
import TodoIndex.Toml.Number
import TodoIndex.Toml.Quoted

/-!
# Variables of the environment

A variable whose name begins with `TW_`, in any case, sets one value.  Two underlines in the
rest of the name lead into a table.  What a variable holds is read as a truth value, a number,
a text between quotes, an array or a table, and as a plain text if it is nothing of these.
-/

namespace TodoIndex

/-- What a process finds around itself. -/
structure Environment where
  /-- Names and contents of variables. -/
  bindings : List (String × String)
  /-- The home directory that the machine has on record for the user of the process. -/
  recordedHome : Option String := none
  deriving Inhabited

namespace Environment

def value? (e : Environment) (name : String) : Option String :=
  e.bindings.lookup name

end Environment

namespace Variables

/-- Blanks that may stand around a value. -/
def isBlank (c : Char) : Bool :=
  c = ' ' || c = '\t' || c = '\n' || c = '\x0c' || c = '\r'

def skipBlanks (s : List Char) : List Char :=
  s.dropWhile isBlank

/-- Whether a character belongs to a plain value. -/
def isPlain (c : Char) : Bool :=
  c != ',' && c != '\x7b' && c != '\x7d' && c != '[' && c != ']'

/-- The rest of a text behind a word. -/
def afterWord? (word s : List Char) : Option (List Char) :=
  if word.isPrefixOf s then some (s.drop word.length) else none

/-- Whether a text is the exponent of a number, or nothing. -/
def isExponent : List Char -> Bool
  | [] => true
  | c :: s =>
      let digits := match s with
        | '+' :: s | '-' :: s => s
        | s => s
      (c = 'e' || c = 'E') && !digits.isEmpty && digits.all Toml.isDigit

/-- Whether a text is a number with a point: there are digits on one side of it at least. -/
def isDecimal (s : List Char) : Bool :=
  let s := match s with
    | '+' :: s | '-' :: s => s
    | s => s
  let whole := s.takeWhile Toml.isDigit
  match s.dropWhile Toml.isDigit with
  | '.' :: s =>
      let fraction := s.takeWhile Toml.isDigit
      !(whole.isEmpty && fraction.isEmpty) && isExponent (s.dropWhile Toml.isDigit)
  | _ => false

/-- The number that a sign and digits write, if it has 64 bits. -/
def integer? (s : List Char) : Option Int :=
  let (negative, digits) := match s with
    | '+' :: s => (false, s)
    | '-' :: s => (true, s)
    | s => (false, s)
  if digits.isEmpty || !digits.all Toml.isDigit then none
  else
    let n := Toml.valueOf 10 digits
    if negative then if n <= Nat.pow 2 63 then some (-(n : Int)) else none
    else if n < Nat.pow 2 64 then some (n : Int) else none

def ofPlain (s : List Char) : Toml :=
  if s.contains '.' && isDecimal s then .decimal
  else
    match integer? s with
    | some n => .integer n
    | none => .text (String.ofList s)

/-- The inner part of a text between quotes, and what follows the text. -/
def splitQuoted : List Char -> Option (List Char × List Char)
  | '"' :: s => some ([], s)
  | '\\' :: c :: s => (splitQuoted s).map fun (inner, rest) => ('\\' :: c :: inner, rest)
  | c :: s => (splitQuoted s).map fun (inner, rest) => (c :: inner, rest)
  | [] => none

/-- The text that the inner part of a quoted text stands for. -/
def unescape? (s : List Char) : Option (List Char) :=
  match s with
  | [] => some []
  | '\\' :: s =>
      match _h : Toml.readEscape s with
      | some (c, rest) => (unescape? rest).map (c :: ·)
      | none => none
  | c :: s => (unescape? s).map (c :: ·)
termination_by s.length
decreasing_by
  · have := Toml.length_of_readEscape _h
    simp
    omega
  · simp

/-- Read a text behind its opening quote. -/
def readQuoted (s : List Char) : Option (String × List Char) :=
  match splitQuoted s with
  | some (inner, rest) => (unescape? inner).map fun s => (String.ofList s, rest)
  | none => none

def readKey : List Char -> Option (String × List Char)
  | '"' :: s => readQuoted s
  | s =>
      match s.takeWhile Toml.isBare with
      | [] => none
      | key => some (String.ofList key, s.dropWhile Toml.isBare)

/-- Read a value that is neither a truth value nor has parts. -/
def readTextOrPlain : List Char -> Option (Toml × List Char)
  | '"' :: s => (readQuoted s).map fun (contents, rest) => (.text contents, rest)
  | '\'' :: c :: '\'' :: rest => some (.text (String.ofList [c]), rest)
  | '\'' :: _ => none
  | s => some (ofPlain (Text.trim (s.takeWhile isPlain)), s.dropWhile isPlain)

def readScalar (s : List Char) : Option (Toml × List Char) :=
  match afterWord? "true".toList s with
  | some rest => some (.bool true, rest)
  | none =>
      match afterWord? "false".toList s with
      | some rest => some (.bool false, rest)
      | none => readTextOrPlain s

mutual

/-- Read a value and the blanks around it; `fuel` bounds the parts that are read on the way. -/
def readValue : (fuel : Nat) -> List Char -> Option (Toml × List Char)
  | 0, _ => none
  | fuel + 1, s =>
      let found : Option (Toml × List Char) := match skipBlanks s with
        | '[' :: s => (readItems fuel s).map fun (items, rest) => (Toml.array items, rest)
        | '\x7b' :: s => (readEntries fuel [] s).map fun (entries, rest) => (.table entries, rest)
        | s => readScalar s
      found.map fun (value, rest) => (value, skipBlanks rest)

/-- Read the items of an array and its closing bracket. -/
def readItems : (fuel : Nat) -> List Char -> Option (List Toml × List Char)
  | 0, _ => none
  | _, ']' :: s => some ([], s)
  | fuel + 1, s =>
      match readValue fuel s with
      | some (item, ']' :: s) => some ([item], s)
      | some (item, ',' :: s) =>
          (readItems fuel s).map fun (items, rest) => (item :: items, rest)
      | _ => none

/-- Read the entries of a table and its closing brace. -/
def readEntries : (fuel : Nat) -> Toml.Entries -> List Char -> Option (Toml.Entries × List Char)
  | 0, _, _ => none
  | _, before, '\x7d' :: s => some (before, s)
  | fuel + 1, before, s =>
      match readKey (skipBlanks s) with
      | none => none
      | some (key, s) =>
          match skipBlanks s with
          | '=' :: s =>
              match readValue fuel s with
              | some (value, '\x7d' :: s) => some (OrderedMap.setEntry key value before, s)
              | some (value, ',' :: s) => readEntries fuel (OrderedMap.setEntry key value before) s
              | _ => none
          | _ => none

end

def valueOf (contents : String) : Toml :=
  let s := contents.toList
  if s.all Text.isBlank then .text contents
  else
    match readValue (2 * s.length + 2) s with
    | some (value, []) => value
    | _ => .text contents

/-- The pieces of a name between two underlines. -/
def nameParts : List Char -> List (List Char)
  | [] => [[]]
  | '_' :: '_' :: s => [] :: nameParts s
  | c :: s =>
      if c = '.' then [] :: nameParts s
      else
        match nameParts s with
        | [] => [[c]]
        | part :: rest => (c :: part) :: rest

/-- The keys that lead to the value which a variable sets, if it sets one. -/
def path? (name : String) : Option (List String) :=
  let s := Text.trim name.toList
  if Text.lowerAscii (s.take 3) = "tw_".toList then
    let parts := nameParts (Text.trim (Text.lower (s.drop 3)))
    if parts.any (·.isEmpty) then none else some (parts.map String.ofList)
  else none

/-- A value at the end of a path of keys. -/
def nested (value : Toml) : List String -> Toml
  | [] => value
  | key :: path => .table [(key, nested value path)]

def layerOf? (name contents : String) : Option Toml :=
  (path? name).map (nested (valueOf contents))

end Variables

end TodoIndex
