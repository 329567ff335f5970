import TodoIndex.Syntax.Go
import TodoIndex.Syntax.Python
import TodoIndex.Syntax.Rust
import TodoIndex.Syntax.Script

/-!
# Built-in languages

The languages whose sources are read without help from outside, with the keys that
settings know them by.
-/

namespace TodoIndex

/-- A language with a built-in reader. -/
inductive Language where
  | go
  | rust
  | python
  | javascript
  | typescript
  deriving DecidableEq, Repr, Inhabited

namespace Language

/-- All languages; of two that claim a file extension the earlier one gets it. -/
def all : List Language :=
  [.go, .rust, .python, .javascript, .typescript]

def key : Language -> String
  | .go => "go"
  | .rust => "rust"
  | .python => "python"
  | .javascript => "javascript"
  | .typescript => "typescript"

instance : ToString Language where
  toString := key

/-- The language with a key, in any case of its letters. -/
def ofKey? (key : String) : Option Language :=
  all.find? fun language => language.key.toList == Text.lowerAscii key.toList

/-- Whether a function without a name goes by the variable it is the value of. -/
def namesByBinding : Language -> Bool
  | .javascript | .typescript => true
  | _ => false

/-- The syntax tree of a source; the file extension picks a variant of the language. -/
def parse (language : Language) (extension : String) (source : List Char) : Syntax.Tree :=
  match language with
  | .go => Syntax.Go.parse source
  | .rust => Syntax.Rust.parse source
  | .python => Syntax.Python.parse source
  | .javascript => Syntax.Script.parse ⟨false, true⟩ source
  | .typescript => Syntax.Script.parse ⟨true, extension == "tsx"⟩ source

end Language

end TodoIndex
