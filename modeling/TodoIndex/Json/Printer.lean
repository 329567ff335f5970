import TodoIndex.Json.Value

/-!
# Printing JSON

The layout of documents: two blanks for every level, one item or field on each line, and
nothing between the brackets of what is empty.
-/

namespace TodoIndex

namespace Json

/-- A digit of the hexadecimal system in lower case. -/
def hexDigit (n : Nat) : Char :=
  if n < 10 then Char.ofNat ('0'.toNat + n) else Char.ofNat ('a'.toNat + (n - 10))

/-- How a character stands in a text. -/
def escape (c : Char) : List Char :=
  if c = '"' then ['\\', '"']
  else if c = '\\' then ['\\', '\\']
  else if c = '\x08' then ['\\', 'b']
  else if c = '\x0c' then ['\\', 'f']
  else if c = '\n' then ['\\', 'n']
  else if c = '\r' then ['\\', 'r']
  else if c = '\t' then ['\\', 't']
  else if c.toNat < 32 then ['\\', 'u', '0', '0', hexDigit (c.toNat / 16), hexDigit (c.toNat % 16)]
  else [c]

def quoted (s : List Char) : List Char :=
  '"' :: s.flatMap escape ++ ['"']

def newLine (level : Nat) : List Char :=
  '\n' :: List.replicate (2 * level) ' '

/-- A text that is none is printed as an empty one; no document of this program has one. -/
def textOf (s : Option (List Char)) : List Char :=
  quoted (s.getD [])

mutual

/-- A value whose first line begins at a level. -/
def printAt (level : Nat) : Json -> List Char
  | .null => "null".toList
  | .bool true => "true".toList
  | .bool false => "false".toList
  | .natural n => Nat.toDigits 10 n
  | .number => ['0']
  | .text s => textOf s
  | .array [] => "[]".toList
  | .array (item :: items) =>
      '[' :: newLine (level + 1) ++ printAt (level + 1) item ++ printItems level items
  | .object [] => ['\x7b', '\x7d']
  | .object ((name, value) :: fields) =>
      '\x7b' :: newLine (level + 1) ++ textOf name ++ ": ".toList ++ printAt (level + 1) value ++
        printFields level fields

/-- The items behind the first one of an array, with its closing bracket. -/
def printItems (level : Nat) : List Json -> List Char
  | [] => newLine level ++ [']']
  | item :: items =>
      ',' :: newLine (level + 1) ++ printAt (level + 1) item ++ printItems level items

/-- The fields behind the first one of an object, with its closing brace. -/
def printFields (level : Nat) : List (Option (List Char) × Json) -> List Char
  | [] => newLine level ++ ['\x7d']
  | (name, value) :: fields =>
      ',' :: newLine (level + 1) ++ textOf name ++ ": ".toList ++ printAt (level + 1) value ++
        printFields level fields

end

def print (value : Json) : List Char :=
  printAt 0 value

end Json

end TodoIndex
