import Mathlib.Logic.Function.Iterate
import TodoIndex.Proofs.Syntax.Positions

/-! # Going through a tree with a cursor

A cursor is on one node of a tree and goes to the first child of that node, to its next sibling or
to its parent.  A traversal moves it on round by round and does not enter comments.  It ends after
a bounded number of rounds, and has then met the outermost comments, at their positions and in their
order.
-/

namespace TodoIndex

namespace Syntax

open TodoIndex.Syntax.Tree (isComment children spots spotsFrom sizeAll)

theorem Tree.size_pos (t : Tree) : 0 < t.size := by
  cases t with
  | token => exact Nat.zero_lt_one
  | node => exact Nat.add_pos_left Nat.zero_lt_one _

/-! ## Cursors -/

/-- A node that a cursor is in, without the child on the way to the cursor. -/
structure Level where
  kind : Kind
  name : Option (List Char)
  /-- The children in front of that one. -/
  earlier : List Tree
  /-- The children behind it. -/
  later : List Tree

/-- The way from the outermost level to the child that is missing in the innermost one. -/
def wayThrough (above : List Level) : Position :=
  (above.map (·.earlier.length)).reverse

/-- A node of a tree, and the levels above it, the innermost first. -/
structure Cursor where
  node : Tree
  above : List Level

namespace Cursor

def firstChild? : Cursor → Option Cursor
  | ⟨.node kind name (child :: later), above⟩ => some ⟨child, ⟨kind, name, [], later⟩ :: above⟩
  | _ => none

def nextSibling? : Cursor → Option Cursor
  | ⟨node, ⟨kind, name, earlier, sibling :: later⟩ :: above⟩ =>
      some ⟨sibling, ⟨kind, name, earlier ++ [node], later⟩ :: above⟩
  | _ => none

def parent? : Cursor → Option Cursor
  | ⟨node, ⟨kind, name, earlier, later⟩ :: above⟩ =>
      some ⟨.node kind name (earlier ++ node :: later), above⟩
  | ⟨_, []⟩ => none

/-- Where the node of a cursor is in the tree. -/
def position (c : Cursor) : Position :=
  wayThrough c.above

end Cursor

/-! ## Rounds of a traversal -/

/-- How far a traversal is, with the positions of the comments that it has met. -/
inductive Traversal where
  /-- The node of the cursor has not been looked at. -/
  | arriving (cursor : Cursor) (met : List Position)
  /-- The node and all that is in it are done with. -/
  | leaving (cursor : Cursor) (met : List Position)
  | ended (met : List Position)

namespace Traversal

variable {s s' : Traversal}

def start (tree : Tree) : Traversal :=
  .arriving ⟨tree, []⟩ []

/-- One round.  A comment is met and not entered, and behind the last child of a node the cursor
climbs until there is a next sibling. -/
def next : Traversal → Traversal
  | .arriving c met =>
      if c.node.isComment then
        .leaving c (met ++ [c.position])
      else
        match c.firstChild? with
        | some child => .arriving child met
        | none => .leaving c met
  | .leaving c met =>
      match c.nextSibling? with
      | some sibling => .arriving sibling met
      | none =>
          match c.parent? with
          | some parent => .leaving parent met
          | none => .ended met
  | .ended met => .ended met

/-- What a round does before the end. -/
inductive Round : Traversal → Traversal → Prop
  | meet {node above met} (hcomment : node.isComment = true) :
      Round (.arriving ⟨node, above⟩ met) (.leaving ⟨node, above⟩ (met ++ [wayThrough above]))
  | pass {node above met} (hcomment : node.isComment = false) (hchildren : node.children = []) :
      Round (.arriving ⟨node, above⟩ met) (.leaving ⟨node, above⟩ met)
  | enter {kind name child later above met} (hkind : kind ≠ .comment) :
      Round (.arriving ⟨.node kind name (child :: later), above⟩ met)
        (.arriving ⟨child, ⟨kind, name, [], later⟩ :: above⟩ met)
  | proceed {node kind name earlier sibling later above met} :
      Round (.leaving ⟨node, ⟨kind, name, earlier, sibling :: later⟩ :: above⟩ met)
        (.arriving ⟨sibling, ⟨kind, name, earlier ++ [node], later⟩ :: above⟩ met)
  | climb {node kind name earlier above met} :
      Round (.leaving ⟨node, ⟨kind, name, earlier, []⟩ :: above⟩ met)
        (.leaving ⟨.node kind name (earlier ++ [node]), above⟩ met)
  | finish {node met} : Round (.leaving ⟨node, []⟩ met) (.ended met)

theorem ended_or_round (s : Traversal) : (∃ met, s = .ended met) ∨ Round s s.next := by
  match s with
  | .ended met => exact .inl ⟨met, rfl⟩
  | .leaving ⟨_, []⟩ _ => exact .inr .finish
  | .leaving ⟨_, ⟨_, _, _, []⟩ :: _⟩ _ => exact .inr .climb
  | .leaving ⟨_, ⟨_, _, _, _ :: _⟩ :: _⟩ _ => exact .inr .proceed
  | .arriving ⟨.token _, _⟩ _ => exact .inr (.pass rfl rfl)
  | .arriving ⟨.node kind name children, above⟩ met =>
      right
      by_cases hkind : kind = .comment
      · subst hkind
        exact .meet rfl
      · have hcomment : (Tree.node kind name children).isComment = false := by
          simp [isComment, hkind]
        rw [next, if_neg (by simp [hcomment])]
        cases children with
        | nil => exact .pass hcomment rfl
        | cons child later => exact .enter hkind

/-! ## The rounds up to the end -/

/-- The most rounds that it takes to leave the levels above a cursor. -/
def toLeave : List Level → Nat
  | [] => 0
  | level :: above => 2 * sizeAll level.later + 1 + toLeave above

/-- The most rounds that it takes to the end: two for each node that has not been looked at, and one
for each other node that has not been left. -/
def rank : Traversal → Nat
  | .arriving c _ => 2 * c.node.size + toLeave c.above
  | .leaving c _ => toLeave c.above + 1
  | .ended _ => 0

theorem Round.rank_lt (h : Round s s') : s'.rank < s.rank := by
  cases h with
  | meet | pass =>
      have := Tree.size_pos ‹Tree›
      simp only [rank]
      omega
  | enter | proceed | climb =>
      simp only [rank, toLeave, Tree.size, sizeAll]
      omega
  | finish => exact Nat.zero_lt_succ _

/-! ## What is met -/

/-- The positions of the outermost comments in a node with some levels above it. -/
def inside (above : List Level) (node : Tree) : List Position :=
  node.spots.map (wayThrough above ++ ·)

/-- The positions of the outermost comments in the later children of the levels. -/
def behind : List Level → List Position
  | [] => []
  | level :: above =>
      (spotsFrom (level.earlier.length + 1) level.later).map (wayThrough above ++ ·) ++ behind above

/-- What a traversal has met, and what it is still to meet.  No round changes it. -/
def due : Traversal → List Position
  | .arriving c met => met ++ (inside c.above c.node ++ behind c.above)
  | .leaving c met => met ++ behind c.above
  | .ended met => met

theorem inside_of_isComment {node : Tree} (h : node.isComment = true) (above : List Level) :
    inside above node = [wayThrough above] := by
  have hspots : node.spots = [[]] := by
    cases node with
    | token => cases h
    | node kind name children => rw [spots, if_pos (by simpa [isComment] using h)]
  simp [inside, hspots]

theorem inside_node {kind : Kind} (hkind : kind ≠ .comment) (name : Option (List Char))
    (children : List Tree) (above : List Level) :
    inside above (.node kind name children) =
      (spotsFrom 0 children).map (wayThrough above ++ ·) := by
  rw [inside, Tree.spots_node hkind]

theorem inside_of_childless {node : Tree} (hcomment : node.isComment = false)
    (hchildren : node.children = []) (above : List Level) : inside above node = [] := by
  cases node with
  | token => simp [inside, spots]
  | node kind name children =>
      obtain rfl : children = [] := hchildren
      rw [inside_node (by simpa [isComment] using hcomment), spotsFrom, List.map_nil]

/-- The comments from one child on are those in that child and those in the later ones. -/
theorem map_spotsFrom_cons (level : Level) (above : List Level) (t : Tree) (ts : List Tree) :
    (spotsFrom level.earlier.length (t :: ts)).map (wayThrough above ++ ·) =
      inside (level :: above) t ++
        (spotsFrom (level.earlier.length + 1) ts).map (wayThrough above ++ ·) := by
  simp [spotsFrom, inside, wayThrough]

theorem Round.due_eq (h : Round s s') : s'.due = s.due := by
  cases h with
  | meet hcomment => simp only [due, inside_of_isComment hcomment, List.append_assoc]
  | pass hcomment hchildren =>
      simp only [due, inside_of_childless hcomment hchildren, List.nil_append]
  | @enter kind name child later above met hkind =>
      -- The node is no comment, so all that is due in it is due in its children.
      have hchildren := map_spotsFrom_cons ⟨kind, name, [], later⟩ above child later
      simp only [due, inside_node hkind, behind]
      rw [← List.append_assoc (inside _ child), ← hchildren]
      rfl
  | @proceed node kind name earlier sibling later above met =>
      have hsiblings :=
        map_spotsFrom_cons ⟨kind, name, earlier ++ [node], later⟩ above sibling later
      simp only [due, behind]
      rw [← List.append_assoc (inside _ sibling), ← hsiblings, List.length_append,
        List.length_singleton]
  | climb => simp only [due, behind, spotsFrom, List.map_nil, List.nil_append]
  | finish => simp only [due, behind, List.append_nil]

theorem iterate_next {n : Nat} (h : s.rank ≤ n) : next^[n] s = .ended s.due := by
  induction n generalizing s with
  | zero =>
      rcases s.ended_or_round with ⟨met, rfl⟩ | hround
      · rfl
      · have := hround.rank_lt
        omega
  | succ n ih =>
      rw [Function.iterate_succ_apply]
      rcases s.ended_or_round with ⟨met, rfl⟩ | hround
      · exact ih (Nat.zero_le n)
      · have := hround.rank_lt
        rw [ih (by omega), hround.due_eq]

/-- Within twice as many rounds as a tree has nodes, its outermost comments have been met. -/
theorem iterate_next_start (tree : Tree) :
    next^[2 * tree.size] (start tree) = .ended tree.spots := by
  have hrank : (start tree).rank = 2 * tree.size := by simp [start, rank, toLeave]
  have hdue : (start tree).due = tree.spots := by simp [start, due, inside, behind, wayThrough]
  rw [iterate_next (Nat.le_of_eq hrank), hdue]

end Traversal

end Syntax

end TodoIndex
