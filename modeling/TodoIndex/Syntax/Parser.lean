import TodoIndex.Syntax.Tree

/-!
# Parsers that lose nothing

A parser reads a first part of its input and turns it into trees.  A step carries the
proof that the text of these trees and the rest make up the input again, so no
parser written with the operations of this module can skip, repeat or invent text.
-/

namespace TodoIndex

namespace Syntax

/-- The result of reading a first part of `input`. -/
structure Step (α : Type) (input : List Char) where
  value : α
  output : List Tree
  rest : List Char
  whole : Tree.textAll output ++ rest = input

/-- A reader of source text; it fails with `none` and then has read nothing. -/
def Parser (α : Type) : Type :=
  (input : List Char) -> Option (Step α input)

namespace Step

def andThen {α β : Type} {input : List Char} (first : Step α input)
    (second : Step β first.rest) : Step β input where
  value := second.value
  output := first.output ++ second.output
  rest := second.rest
  whole := by
    have h₁ := first.whole
    have h₂ := second.whole
    simp [h₁, h₂]

end Step

namespace Parser

instance : Monad Parser where
  pure a := fun input => some ⟨a, [], input, by simp⟩
  bind p f := fun input =>
    match p input with
    | none => none
    | some first =>
        match f first.value first.rest with
        | none => none
        | some second => some (first.andThen second)

/-- The parser that never reads anything. -/
def fail {α : Type} : Parser α := fun _ => none

/-- The first parser, or the second one where the first fails. -/
def orElse {α : Type} (p q : Parser α) : Parser α := fun input =>
  match p input with
  | some step => some step
  | none => q input

def remaining : Parser (List Char) := fun input =>
  some ⟨input, [], input, by simp⟩

/-- Go on only under a condition. -/
def guard (b : Bool) : Parser Unit :=
  if b then pure () else fail

/-- Read the next `n` characters as one token. -/
def take (n : Nat) : Parser Unit := fun input =>
  if n = 0 then some ⟨(), [], input, by simp⟩
  else some ⟨(), [.token (input.take n)], input.drop n, by simp⟩

/-- Read the next `n` characters as one comment. -/
def takeComment (n : Nat) : Parser Unit := fun input =>
  some ⟨(), [.node .comment none [.token (input.take n)]], input.drop n, by simp⟩

/-- Put what `p` reads under one node, if `p` answers with a kind and a name. -/
def group {α : Type} (p : Parser (Option (Kind × Option (List Char)) × α)) : Parser α := fun input =>
  match p input with
  | none => none
  | some step =>
      match step.value with
      | (none, a) => some { step with value := a }
      | (some (kind, name), a) =>
          some ⟨a, [.node kind name step.output], step.rest, by simpa using step.whole⟩

/-- Read with `p` and answer also with the text that was read. -/
def withText {α : Type} (p : Parser α) : Parser (α × List Char) := fun input =>
  match p input with
  | none => none
  | some step => some { step with value := (step.value, Tree.textAll step.output) }

def canRead {α : Type} (p : Parser α) : Parser Bool := fun input =>
  some ⟨(p input).isSome, [], input, by simp⟩

def optional {α : Type} (p : Parser α) : Parser (Option α) := fun input =>
  match p input with
  | none => some ⟨none, [], input, by simp⟩
  | some step => some { step with value := some step.value }

/-- The state of a repetition: the outputs so far, the latest first. -/
structure Progress (input : List Char) where
  outputs : List (List Tree)
  rest : List Char
  whole : Tree.textAll outputs.reverse.flatten ++ rest = input

/-- Read on with `p` until it fails, answers `false` or reads nothing. -/
def repeatFrom (p : Parser Bool) {input : List Char} (sofar : Progress input) : Progress input :=
  match p sofar.rest with
  | none => sofar
  | some step =>
      let next : Progress input :=
        { outputs := step.output :: sofar.outputs
          rest := step.rest
          whole := by
            have h₁ := sofar.whole
            have h₂ := step.whole
            simp only [List.reverse_cons, List.flatten_append, List.flatten_cons,
              List.flatten_nil, List.append_nil, Tree.textAll_append, List.append_assoc]
            rw [h₂, h₁] }
      if h : step.value && Tree.spansTextAny step.output then
        repeatFrom p next
      else
        next
  termination_by sofar.rest.length
  decreasing_by
    have hne := Tree.textAll_ne_nil_of_spansTextAny step.output (by simp_all)
    have hlen := congrArg List.length step.whole
    have hpos := List.length_pos_iff.mpr hne
    simp only [List.length_append] at hlen
    show step.rest.length < _
    omega

/-- Read with `p` again and again, until it fails, answers `false` or reads nothing. -/
def repeatWhile (p : Parser Bool) : Parser Unit := fun input =>
  let start : Progress input := ⟨[], input, by simp⟩
  let done := repeatFrom p start
  some ⟨(), done.outputs.reverse.flatten, done.rest, done.whole⟩

/-- Read with `p` as often as it can. -/
def many {α : Type} (p : Parser α) : Parser Unit :=
  repeatWhile (bind p fun _ => pure true)

/-- Read all that is left as one token. -/
def takeRest : Parser Unit := fun input =>
  match input with
  | [] => some ⟨(), [], [], by simp⟩
  | c :: s => some ⟨(), [.token (c :: s)], [], by simp⟩

/--
Read a whole source with `p`.

What `p` leaves becomes one token of the tree, so every text has a tree that spans it.
-/
def wholeTree (p : Parser Unit) (input : List Char) : Tree :=
  match orElse (bind p fun _ => takeRest) takeRest input with
  | none => .token input
  | some step => .node .source none (step.output ++ [.token step.rest])

theorem text_wholeTree (p : Parser Unit) (input : List Char) :
    (wholeTree p input).text = input := by
  unfold wholeTree
  split
  · simp
  · next step _ =>
      have h := step.whole
      simpa using h

end Parser

end Syntax

end TodoIndex
