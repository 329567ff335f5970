/-!
# TOML values

The values of TOML documents.  A table has distinct keys, in no particular order.  A date or
time is a table with its text under one reserved key, and of a number with a fraction or an
exponent nothing is kept, because nobody wants one.
-/

namespace TodoIndex

/-- A TOML value. -/
inductive Toml where
  | bool (b : Bool)
  | integer (n : Int)
  /-- A number that has a fraction or an exponent. -/
  | decimal
  | text (s : String)
  | array (items : List Toml)
  | table (entries : List (String × Toml))
  deriving Inhabited

namespace Toml

abbrev Entries := List (String × Toml)

/-- The key under which a date or time has its text. -/
def momentKey : String :=
  "$__toml_private_datetime"

def moment (spelling : List Char) : Toml :=
  .table [(momentKey, .text (String.ofList spelling))]

/-- Whether a number can be written in a document. -/
def isWritable (n : Int) : Bool :=
  -(Int.pow 2 63) <= n && n < Int.pow 2 63

mutual

/-- Whether all numbers of a value can be written in a document. -/
def fits : Toml -> Bool
  | .integer n => isWritable n
  | .array items => allFit items
  | .table entries => entriesFit entries
  | _ => true

def allFit : List Toml -> Bool
  | [] => true
  | item :: items => item.fits && allFit items

def entriesFit : List (String × Toml) -> Bool
  | [] => true
  | (_, value) :: entries => value.fits && entriesFit entries

end

end Toml

end TodoIndex
