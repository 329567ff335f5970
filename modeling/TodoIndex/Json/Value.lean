/-!
# JSON values

The values of JSON documents, the fields of an object in the order of the document and with
repetitions.  A text can have escapes or bytes that stand for no character, and a number can be
something else than a natural one; neither is ever wanted, so such values keep nothing
but their kind.
-/

namespace TodoIndex

/-- A JSON value as it stands in a document. -/
inductive Json where
  | null
  | bool (b : Bool)
  | natural (n : Nat)
  /-- A number that has a sign, a fraction or an exponent. -/
  | number
  /-- A text; nothing if some part of it is no character. -/
  | text (s : Option (List Char))
  | array (items : List Json)
  | object (fields : List (Option (List Char) × Json))
  deriving Inhabited

namespace Json

def ofString (s : String) : Json :=
  .text (some s.toList)

/-- An object with the given names. -/
def ofFields (fields : List (String × Json)) : Json :=
  .object (fields.map fun (name, value) => (some name.toList, value))

def string? : Json -> Option String
  | .text (some s) => some (String.ofList s)
  | _ => none

def items? : Json -> Option (List Json)
  | .array items => some items
  | _ => none

def entries? : Json -> Option (List (String × Json))
  | .object fields =>
      fields.mapM fun (name, value) => name.map fun name => (String.ofList name, value)
  | _ => none

def valuesOf (name : String) (entries : List (String × Json)) : List Json :=
  (entries.filter (·.1 = name)).map Prod.snd

/-- The value of a field that must not be repeated; it may be absent. -/
def once? (entries : List (String × Json)) (name : String) : Option (Option Json) :=
  match valuesOf name entries with
  | [] => some none
  | [value] => some (some value)
  | _ => none

/-- The fields of a record.  It is written as an object, whose other fields do not count, or as
an array of the fields in their order, of which the last ones may be absent. -/
def record? (names : List String) : Json -> Option (List (Option Json))
  | .array items =>
      if items.length <= names.length then
        some (items.map some ++ List.replicate (names.length - items.length) none)
      else none
  | value =>
      match value.entries? with
      | some entries => names.mapM (once? entries)
      | none => none

def nullable? {α : Type} (read : Json -> Option α) : Json -> Option (Option α)
  | .null => some none
  | value => (read value).map some

/-- A field that may be absent. -/
def optional? {α : Type} (default : α) (read : Json -> Option α) : Option Json -> Option α
  | none => some default
  | some value => read value

def required? {α : Type} (read : Json -> Option α) : Option Json -> Option α
  | none => none
  | some value => read value

def listOf? {α : Type} (read : Json -> Option α) (value : Json) : Option (List α) :=
  value.items?.bind (·.mapM read)

def mapOf? {α : Type} (read : Json -> Option α) (value : Json) : Option (List (String × α)) :=
  value.entries?.bind (·.mapM fun (name, value) => (read value).map fun a => (name, a))

def word? : Json -> Option UInt32
  | .natural n => if n < UInt32.size then some (UInt32.ofNat n) else none
  | _ => none

end Json

end TodoIndex
