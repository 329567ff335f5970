import TodoIndex.Toml.Quoted
import TodoIndex.Toml.Value

/-!
# Printing TOML

The layout of documents: first the values of a table, each on a line of its own, then its
tables, each under a header.
-/

namespace TodoIndex

namespace Toml

def hexDigit (n : Nat) : Char :=
  if n < 10 then Char.ofNat ('0'.toNat + n) else Char.ofNat ('A'.toNat + (n - 10))

/-- How a character stands in a text. -/
def escape (c : Char) : List Char :=
  if c = '"' then ['\\', '"']
  else if c = '\\' then ['\\', '\\']
  else if c = '\n' then ['\\', 'n']
  else if c = '\r' then ['\\', 'r']
  else if c = '\t' then ['\\', 't']
  else if c.toNat < 32 || c.toNat = 127 then
    ['\\', 'u', '0', '0', hexDigit (c.toNat / 16), hexDigit (c.toNat % 16)]
  else [c]

def quoted (s : String) : List Char :=
  '"' :: s.toList.flatMap escape ++ ['"']

/-- A key, between quotes if it has to be. -/
def printKey (key : String) : List Char :=
  if !key.isEmpty && key.toList.all isBare then key.toList else quoted key

def printInteger (n : Int) : List Char :=
  if n < 0 then '-' :: Nat.toDigits 10 n.natAbs else Nat.toDigits 10 n.natAbs

mutual

def printValue : Toml -> List Char
  | .bool true => "true".toList
  | .bool false => "false".toList
  | .integer n => printInteger n
  | .decimal => "0.0".toList
  | .text s => quoted s
  | .array [] => "[]".toList
  | .array (item :: items) => '[' :: printValue item ++ printItems items ++ [']']
  | .table [] => ['\x7b', '\x7d']
  | .table ((key, value) :: entries) =>
      '\x7b' :: ' ' :: printKey key ++ " = ".toList ++ printValue value ++ printEntries entries ++
        [' ', '\x7d']

/-- The items of an array behind the first one. -/
def printItems : List Toml -> List Char
  | [] => []
  | item :: items => ',' :: ' ' :: printValue item ++ printItems items

/-- The entries of a table on one line behind the first one. -/
def printEntries : List (String × Toml) -> List Char
  | [] => []
  | (key, value) :: entries =>
      ',' :: ' ' :: printKey key ++ " = ".toList ++ printValue value ++ printEntries entries

end

/-- The values of a table that are no tables, each on a line. -/
def printLines : List (String × Toml) -> List Char
  | [] => []
  | (_, .table _) :: entries => printLines entries
  | (key, value) :: entries =>
      printKey key ++ " = ".toList ++ printValue value ++ '\n' :: printLines entries

def printHeader (path : List String) : List Char :=
  '[' :: List.intercalate ['.'] (path.map printKey) ++ [']', '\n']

mutual

def printBody (path : List String) : Toml -> List Char
  | .table entries => '\n' :: printHeader path ++ printLines entries ++ printTables path entries
  | _ => []

def printTables (path : List String) : List (String × Toml) -> List Char
  | [] => []
  | (key, value) :: entries => printBody (path ++ [key]) value ++ printTables path entries

end

def print (entries : Entries) : List Char :=
  printLines entries ++ printTables [] entries

end Toml

end TodoIndex
