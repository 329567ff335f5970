import TodoIndex.Syntax.Script.Element
import TodoIndex.Syntax.Script.Statement

/-!
# Outline of JavaScript and TypeScript sources

The readers for all constructs are tied together here, depth by depth.
-/

namespace TodoIndex

namespace Syntax

namespace Script

open TodoIndex.Syntax.Parser

/-- The readers for a nesting of at most the given depth. -/
def rules (dialect : Dialect) : (depth : Nat) -> Rules
  | 0 => noRules dialect
  | depth + 1 =>
      { dialect := dialect
        bracketed := fun s => bracketed (rules dialect depth) s
        angled := fun s => angled (rules dialect depth) s
        type := fun s => type (rules dialect depth) s
        assignment := fun resultType s => assignment (rules dialect depth) resultType s
        operand := fun resultType s => operand (rules dialect depth) resultType s
        element := fun s => element (rules dialect depth) s
        pattern := fun s => pattern (rules dialect depth) s
        statement := fun s => statement (rules dialect depth) s
        loose := fun s => loose (rules dialect depth) s
        block := fun s => block (rules dialect depth) s }

def sourceFile (rules : Rules) : Parser Unit := do
  let s ← remaining
  if begins s "#!" then
    take (lengthWhile (!endsLineComment ·) s)
  many (orElse (item rules) (do
    lexis.trivia
    guard (!(← remaining).isEmpty)
    take 1))
  lexis.trivia

def parse (dialect : Dialect) (source : List Char) : Tree :=
  wholeTree (sourceFile (rules dialect (4 * source.length + 16))) source

end Script

end Syntax

end TodoIndex
