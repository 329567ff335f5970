import TodoIndex.Text.Lines

/-!
# Syntax trees with their whole text

A tree keeps every character of the source it was read from: the text of its
tokens, joined, is the source.  Only the kinds that matter for attributing a comment
are told apart.  `Tree.comments` gathers the comments with the nodes around them, and
`enclosingFunction` reads the name of the function a comment stands in.
-/

namespace TodoIndex

namespace Syntax

/-- What a node of a syntax tree stands for. -/
inductive Kind where
  | source
  | comment
  | function
  /-- A variable with its initial value. -/
  | declarator
  | other
  deriving DecidableEq, Repr, Inhabited

/-- A syntax tree; the name of a node is the text of its name field, if it has one. -/
inductive Tree where
  | token (text : List Char)
  | node (kind : Kind) (name : Option (List Char)) (children : List Tree)
  deriving Inhabited

namespace Tree

mutual

def text : Tree -> List Char
  | .token s => s
  | .node _ _ children => textAll children

/-- The source text a row of trees spans. -/
def textAll : List Tree -> List Char
  | [] => []
  | t :: ts => t.text ++ textAll ts

end

@[simp] theorem text_token (s : List Char) : (token s).text = s := by
  simp [text]

@[simp] theorem text_node (kind : Kind) (name : Option (List Char)) (children : List Tree) :
    (node kind name children).text = textAll children := by
  simp [text]

@[simp] theorem textAll_nil : textAll [] = [] := by
  simp [textAll]

@[simp] theorem textAll_cons (t : Tree) (ts : List Tree) :
    textAll (t :: ts) = t.text ++ textAll ts := by
  simp [textAll]

@[simp] theorem textAll_append (ts us : List Tree) :
    textAll (ts ++ us) = textAll ts ++ textAll us := by
  induction ts with
  | nil => simp
  | cons t ts ih => simp [ih]

mutual

def size : Tree -> Nat
  | .token _ => 1
  | .node _ _ children => 1 + sizeAll children

/-- How many nodes and tokens a row of trees has. -/
def sizeAll : List Tree -> Nat
  | [] => 0
  | t :: ts => t.size + sizeAll ts

end

mutual

def spansText : Tree -> Bool
  | .token s => !s.isEmpty
  | .node _ _ children => spansTextAny children

/-- Whether a row of trees spans at least one character. -/
def spansTextAny : List Tree -> Bool
  | [] => false
  | t :: ts => t.spansText || spansTextAny ts

end

mutual

theorem text_ne_nil_of_spansText :
    (t : Tree) -> t.spansText = true -> t.text ≠ []
  | .token s => by
      cases s <;> simp [spansText]
  | .node _ _ children => by
      simpa [spansText] using textAll_ne_nil_of_spansTextAny children

theorem textAll_ne_nil_of_spansTextAny :
    (ts : List Tree) -> spansTextAny ts = true -> textAll ts ≠ []
  | [] => by simp [spansTextAny]
  | t :: ts => by
      intro h
      simp only [spansTextAny, Bool.or_eq_true] at h
      rcases h with h | h
      · have := text_ne_nil_of_spansText t h
        simp [this]
      · have := textAll_ne_nil_of_spansTextAny ts h
        simp [this]

end

end Tree

/-- A node around a comment: its kind and its name. -/
structure Around where
  kind : Kind
  name : Option (List Char)
  deriving DecidableEq, Repr

/-- A comment of a source with what attributing it needs. -/
structure Comment where
  /-- The line feeds before the comment. -/
  row : Nat
  raw : List Char
  /-- The nodes around the comment, the innermost first. -/
  around : List Around
  deriving DecidableEq, Repr

def pendingSize : List (List Around × Tree) -> Nat
  | [] => 0
  | (_, t) :: more => t.size + pendingSize more

/-- The trees below a node, each with the nodes around it. -/
def entering (around : List Around) : List Tree -> List (List Around × Tree)
  | [] => []
  | t :: ts => (around, t) :: entering around ts

theorem pendingSize_entering (around : List Around) (children : List Tree) :
    pendingSize (entering around children) = Tree.sizeAll children := by
  induction children with
  | nil => simp [pendingSize, entering, Tree.sizeAll]
  | cons t ts ih => simp only [pendingSize, entering, Tree.sizeAll, ih]

theorem pendingSize_append (p q : List (List Around × Tree)) :
    pendingSize (p ++ q) = pendingSize p + pendingSize q := by
  induction p with
  | nil => simp [pendingSize]
  | cons entry p ih =>
      simp only [List.cons_append, pendingSize, ih]
      omega

/--
Visit the pending trees from left to right and gather their comments.

A comment is not entered, so a comment inside a comment is part of the outer one.  A cursor that
goes through the tree from node to node, to children, siblings and parents, meets the same comments:
that traversal is in `TodoIndex.Proofs.Syntax.Traversal`.
-/
def gatherComments (row : Nat) (pending : List (List Around × Tree)) : List Comment :=
  match pending with
  | [] => []
  | (_, .token s) :: more => gatherComments (row + Text.lineFeeds s) more
  | (around, .node kind name children) :: more =>
      if kind = .comment then
        let raw := Tree.textAll children
        ⟨row, raw, around⟩ :: gatherComments (row + Text.lineFeeds raw) more
      else
        gatherComments row (entering (⟨kind, name⟩ :: around) children ++ more)
  termination_by pendingSize pending
  decreasing_by
  · simp only [pendingSize, Tree.size]
    omega
  · simp only [pendingSize, Tree.size]
    omega
  · rw [pendingSize_append, pendingSize_entering]
    simp only [pendingSize, Tree.size]
    omega

/-- The comments of a tree that are not inside another comment, in source order. -/
def Tree.comments (tree : Tree) : List Comment :=
  gatherComments 0 [([], tree)]

/--
The name of the innermost named function among the nodes around a comment.

With `byBinding`, a function without a name of its own that is the value of a
variable goes by that variable's name.  Functions without any name are passed over.
-/
def enclosingFunction (byBinding : Bool) : List Around -> Option (List Char)
  | [] => none
  | inner :: outer =>
      if inner.kind = .function then
        match inner.name, outer with
        | some name, _ => some name
        | none, next :: _ =>
            match byBinding && next.kind == .declarator, next.name with
            | true, some name => some name
            | _, _ => enclosingFunction byBinding outer
        | none, [] => none
      else
        enclosingFunction byBinding outer

end Syntax

end TodoIndex
