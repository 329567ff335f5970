import TodoIndex.Toml.Growth
import TodoIndex.Toml.Moment
import TodoIndex.Toml.Quoted

/-!
# Reading TOML

A document is a sequence of lines: comments, headers, and values under keys.  Values may lie
within each other to a certain depth, and so may the tables that a key leads through.
-/

namespace TodoIndex

namespace Toml

/-- How deep arrays and tables may lie within each other. -/
def maxDepth : Nat := 79

/-- Read the parts of a dotted key behind the first one. -/
def moreKeyParts : (fuel : Nat) -> List Char -> Option (List String × List Char)
  | 0, s => some ([], s)
  | fuel + 1, s =>
      match skipBlanks s with
      | '.' :: s =>
          match readKeyPart (skipBlanks s) with
          | some (part, s) =>
              (moreKeyParts fuel s).map fun (parts, rest) => (part :: parts, rest)
          | none => none
      | _ => some ([], s)

def readKey (s : List Char) : Option (List String × List Char) :=
  match readKeyPart (skipBlanks s) with
  | none => none
  | some (part, s) =>
      match moreKeyParts s.length s with
      | none => none
      | some (parts, s) =>
          if parts.length < maxDepth then some (part :: parts, skipBlanks s) else none

/-- Read a line end with the comment before it; the end of the text ends a line as well. -/
def readLineEnd (s : List Char) : Option (List Char) :=
  let s := match skipBlanks s with
    | '#' :: s => s.dropWhile isPlain
    | s => s
  if s.isEmpty then some [] else afterLineEnd? s

/-- Skip blanks, line ends and comments between the items of an array. -/
def skipLines : (fuel : Nat) -> List Char -> Option (List Char)
  | 0, s => some s
  | fuel + 1, s =>
      match skipBlanks s with
      | '#' :: s =>
          match afterLineEnd? (s.dropWhile isPlain) with
          | some s => skipLines fuel s
          | none => none
      | s =>
          match afterLineEnd? s with
          | some s => skipLines fuel s
          | none => some s

abbrev ValueReader := List Char -> Option (Toml × List Char)

/-- Read the items of an array and its closing bracket. -/
def readItems (read : ValueReader) : (fuel : Nat) -> List Char -> Option (List Toml × List Char)
  | 0, _ => none
  | fuel + 1, s =>
      match skipLines s.length s with
      | none => none
      | some (']' :: s) => some ([], s)
      | some s =>
          match read s with
          | none => none
          | some (item, s) =>
              match skipLines s.length s with
              | some (',' :: s) =>
                  (readItems read fuel s).map fun (items, rest) => (item :: items, rest)
              | some (']' :: s) => some ([item], s)
              | _ => none

/-- Read a key, the sign between and a value. -/
def readKeyValue (read : ValueReader) (s : List Char) :
    Option (List String × Toml × List Char) :=
  match readKey s with
  | some (path, '=' :: s) => (read (skipBlanks s)).map fun (value, rest) => (path, value, rest)
  | _ => none

/-- Read the entries of a table within a line and its closing brace. -/
def readEntries (read : ValueReader) :
    (fuel : Nat) -> Nodes -> List Char -> Option (Nodes × List Char)
  | 0, _, _ => none
  | fuel + 1, nodes, s =>
      match readKeyValue read s with
      | none => none
      | some (path, value, s) =>
          match nodes.add path value with
          | none => none
          | some nodes =>
              match skipBlanks s with
              | ',' :: s => readEntries read fuel nodes s
              | '\x7d' :: s => some (nodes, s)
              | _ => none

/-- Read a table within a line behind its opening brace. -/
def readInlineTable (read : ValueReader) (s : List Char) : Option (Toml × List Char) :=
  match skipBlanks s with
  | '\x7d' :: s => some (.table [], s)
  | s =>
      (readEntries read (s.length + 1) [] s).map fun (nodes, rest) =>
        ((Node.table .header nodes).toToml, rest)

/-- The rest of a text behind a word. -/
def afterWord? (word s : List Char) : Option (List Char) :=
  if word.isPrefixOf s then some (s.drop word.length) else none

def readScalar (s : List Char) : Option (Toml × List Char) :=
  match s with
  | '"' :: _ | '\'' :: _ =>
      (readQuoted s).map fun (chars, rest) => (.text (String.ofList chars), rest)
  | 't' :: _ => (afterWord? "true".toList s).map fun rest => (.bool true, rest)
  | 'f' :: _ => (afterWord? "false".toList s).map fun rest => (.bool false, rest)
  | _ => readMomentOrNumber s

/-- Read a value in which arrays and tables lie so deep within each other. -/
def readValue : (depth : Nat) -> ValueReader
  | 0, s =>
      match s with
      | '[' :: _ | '\x7b' :: _ => none
      | _ => readScalar s
  | depth + 1, s =>
      match s with
      | '[' :: s =>
          (readItems (readValue depth) (s.length + 1) s).map fun (items, rest) =>
            (.array items, rest)
      | '\x7b' :: s => readInlineTable (readValue depth) s
      | _ => readScalar s

/-- Read a header behind its first bracket. -/
def readHeader : List Char -> Option (Bool × List String × List Char)
  | '[' :: s =>
      match readKey s with
      | some (path, ']' :: ']' :: s) => (readLineEnd s).map fun rest => (true, path, rest)
      | _ => none
  | s =>
      match readKey s with
      | some (path, ']' :: s) => (readLineEnd s).map fun rest => (false, path, rest)
      | _ => none

/-- Read the lines of a document; `header` leads to the table that values go to. -/
def readLines : (fuel : Nat) -> (header : List String) -> Nodes -> List Char -> Option Nodes
  | 0, _, _, _ => none
  | fuel + 1, header, nodes, s =>
      match skipBlanks s with
      | [] => some nodes
      | '[' :: s =>
          match readHeader s with
          | none => none
          | some (isArray, path, s) =>
              (nodes.open? isArray path).bind fun nodes => readLines fuel path nodes s
      | s =>
          match readLineEnd s with
          | some s => readLines fuel header nodes s
          | none =>
              match readKeyValue (readValue maxDepth) s with
              | none => none
              | some (path, value, s) =>
                  match readLineEnd s with
                  | none => none
                  | some s =>
                      (nodes.addUnder header path value).bind fun nodes =>
                        readLines fuel header nodes s

/-- A mark of the byte order before a document does not count. -/
def skipMark : List Char -> List Char
  | c :: s => if c.toNat = 0xFEFF then s else c :: s
  | [] => []

/-- The table that a document writes. -/
def ofText? (s : List Char) : Option Entries :=
  let s := skipMark s
  (readLines (s.length + 1) [] [] s).map Node.entriesToToml

end Toml

end TodoIndex
