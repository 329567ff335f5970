import Mathlib.Data.List.Forall2
import Mathlib.Data.List.Induction
import TodoIndex.Extraction
import TodoIndex.Proofs.Syntax.Traversal

/-! # Comments and the functions around them

The functions around a comment are asked for their names from the innermost one on, and those
without a name are passed over.  So a comment is said to be in the nearest function around it that
goes by a name.
-/

namespace TodoIndex

theorem Language.namesByBinding_iff {language : Language} : language.namesByBinding = true ↔
    language = .javascript ∨ language = .typescript := by
  cases language <;> simp [namesByBinding]

namespace Extraction

open Syntax (Around Position Traversal Tree enclosingFunction)

variable {language : Language} {t u : Tree} {p q : Position} {name : List Char}
  {f g : Option String}

/-! ## The nearest function with a name -/

/-- The node at the first position has the one at the second position in it. -/
def Encloses (q p : Position) : Prop :=
  q <+: p ∧ q ≠ p

/-- At a position is a function that goes by a name: its own one or, if it has none of its own, in
JavaScript and TypeScript that of the variable which the function is the value of. -/
inductive GoesBy (language : Language) (t : Tree) : Position → List Char → Prop
  | own {q name children} (hfunction : t.at? q = some (.node .function (some name) children)) :
      GoesBy language t q name
  | bound {q i name children siblings}
      (hlanguage : language = .javascript ∨ language = .typescript)
      (hfunction : t.at? (q ++ [i]) = some (.node .function none children))
      (hvariable : t.at? q = some (.node .declarator (some name) siblings)) :
      GoesBy language t (q ++ [i]) name

/-- Of the functions around the first position that go by a name, the one at the second position is
the nearest, and this is its name. -/
structure Nearest (language : Language) (t : Tree) (p q : Position) (name : List Char) : Prop where
  encloses : Encloses q p
  goesBy : GoesBy language t q name
  nearest : ∀ r other, Encloses r p → GoesBy language t r other → r <+: q

/-- The nearest function around a position that goes by a name goes by this one; without a name,
there is no such function. -/
def StandsIn (language : Language) (t : Tree) (p : Position) : Option String → Prop
  | some f => ∃ q, Nearest language t p q f.toList
  | none => ∀ q name, Encloses q p → ¬GoesBy language t q name

theorem encloses_concat {i : Nat} : Encloses q (p ++ [i]) ↔ q <+: p := by
  rw [Encloses, List.prefix_concat_iff]
  constructor
  · rintro ⟨rfl | h, hne⟩
    · exact absurd rfl hne
    · exact h
  · intro h
    refine ⟨.inr h, ?_⟩
    rintro rfl
    have := h.length_le
    rw [List.length_append, List.length_singleton] at this
    omega

/-! ## The name of one function -/

/-- The name that a node goes by among the nodes around it, if it is a function. -/
def nameAmong (byBinding : Bool) (inner : Around) (outer : List Around) : Option (List Char) :=
  if inner.kind = .function then
    inner.name.or (outer.head?.bind fun next =>
      if byBinding && next.kind == .declarator then next.name else none)
  else
    none

theorem enclosingFunction_cons (byBinding : Bool) (inner : Around) (outer : List Around) :
    enclosingFunction byBinding (inner :: outer) =
      (nameAmong byBinding inner outer).or (enclosingFunction byBinding outer) := by
  obtain ⟨kind, name⟩ := inner
  conv_lhs => unfold enclosingFunction
  rw [nameAmong]
  by_cases hkind : kind = .function
  · rw [if_pos hkind, if_pos hkind]
    cases name with
    | some name => rfl
    | none =>
        cases outer with
        | nil => rfl
        | cons next outer =>
            obtain ⟨around, given⟩ := next
            dsimp only [List.head?_cons, Option.bind_some]
            cases byBinding && around == .declarator <;> cases given <;> rfl
  · rw [if_neg hkind, if_neg hkind, Option.none_or]

theorem nameAmong_eq_some_iff {kind : Syntax.Kind} {own : Option (List Char)}
    {children : List Tree} (h : t.at? q = some (.node kind own children)) :
    nameAmong language.namesByBinding ⟨kind, own⟩ (t.around q) = some name ↔
      GoesBy language t q name := by
  constructor
  · intro hname
    obtain ⟨rfl, hname⟩ := Option.ite_none_right_eq_some.mp hname
    rcases Option.or_eq_some_iff.mp hname with rfl | ⟨rfl, hbound⟩
    · exact .own h
    -- Without a name of its own, so its parent has to be a variable.
    · cases q using List.reverseRecOn with
      | nil => cases hbound
      | append_singleton q i =>
          obtain ⟨kind, given, siblings, hparent, haround⟩ := Tree.exists_parent h
          rw [haround] at hbound
          obtain ⟨hdeclarator, rfl⟩ := Option.ite_none_right_eq_some.mp hbound
          rw [Bool.and_eq_true, beq_iff_eq] at hdeclarator
          obtain ⟨hlanguage, rfl⟩ := hdeclarator
          exact .bound (Language.namesByBinding_iff.mp hlanguage) h hparent
  · intro hgoesBy
    cases hgoesBy with
    | own hfunction =>
        rw [h] at hfunction
        cases hfunction
        rfl
    | bound hlanguage hfunction hvariable =>
        obtain ⟨kind, given, siblings, hparent, haround⟩ := Tree.exists_parent h
        rw [h] at hfunction
        rw [hparent] at hvariable
        cases hfunction
        cases hvariable
        simp [haround, nameAmong, Language.namesByBinding_iff.mpr hlanguage]

theorem GoesBy.exists_node (h : GoesBy language t q name) :
    ∃ kind own children, t.at? q = some (.node kind own children) := by
  cases h with
  | own hfunction => exact ⟨_, _, _, hfunction⟩
  | bound _ hfunction _ => exact ⟨_, _, _, hfunction⟩

theorem GoesBy.unique {other : List Char} (h : GoesBy language t q name)
    (hother : GoesBy language t q other) : name = other := by
  obtain ⟨kind, own, children, hq⟩ := h.exists_node
  have hname := (nameAmong_eq_some_iff hq).mpr h
  rw [(nameAmong_eq_some_iff hq).mpr hother] at hname
  exact (Option.some.inj hname).symm

/-! ## From the innermost function on -/

theorem StandsIn.unique (hf : StandsIn language t p f) (hg : StandsIn language t p g) : f = g := by
  cases f with
  | none =>
      cases g with
      | none => rfl
      | some g =>
          obtain ⟨q, hq⟩ := hg
          exact absurd hq.goesBy (hf q _ hq.encloses)
  | some f =>
      obtain ⟨q, hq⟩ := hf
      cases g with
      | none => exact absurd hq.goesBy (hg q _ hq.encloses)
      | some g =>
          obtain ⟨r, hr⟩ := hg
          -- Neither of the two is nearer than the other one.
          have hqr : q = r := (hr.nearest q _ hq.encloses hq.goesBy).eq_of_length_le
            (hq.nearest r _ hr.encloses hr.goesBy).length_le
          subst hqr
          rw [String.toList_inj.mp (hq.goesBy.unique hr.goesBy)]

/-- A node whose parent goes by no name stands where the parent stands. -/
theorem StandsIn.concat (h : StandsIn language t p f) (hnone : ∀ name, ¬GoesBy language t p name)
    (i : Nat) : StandsIn language t (p ++ [i]) f := by
  have hencloses : ∀ r other, Encloses r (p ++ [i]) → GoesBy language t r other → Encloses r p := by
    rintro r other hr hother
    refine ⟨encloses_concat.mp hr, ?_⟩
    rintro rfl
    exact hnone other hother
  cases f with
  | none => exact fun r other hr hother => h r other (hencloses r other hr hother) hother
  | some f =>
      obtain ⟨q, hq⟩ := h
      exact ⟨q, encloses_concat.mpr hq.encloses.1, hq.goesBy,
        fun r other hr hother => hq.nearest r other (hencloses r other hr hother) hother⟩

theorem standsIn_enclosingFunction (h : t.at? p = some u) :
    StandsIn language t p
      ((enclosingFunction language.namesByBinding (t.around p)).map String.ofList) := by
  -- From the end of the position: a node's parent is asked first, and then the nodes around that.
  induction p using List.reverseRecOn generalizing u with
  | nil =>
      intro q name hq
      exact absurd (List.prefix_nil.mp hq.1) hq.2
  | append_singleton p i ih =>
      obtain ⟨kind, own, children, hparent, haround⟩ := Tree.exists_parent h
      rw [haround, enclosingFunction_cons]
      cases hname : nameAmong language.namesByBinding ⟨kind, own⟩ (t.around p) with
      | some name =>
          refine ⟨p, encloses_concat.mpr (List.prefix_refl p), ?_,
            fun r other hr _ => encloses_concat.mp hr⟩
          rw [String.toList_ofList]
          exact (nameAmong_eq_some_iff hparent).mp hname
      | none =>
          refine (ih hparent).concat (fun name hgoesBy => ?_) i
          rw [(nameAmong_eq_some_iff hparent).mpr hgoesBy] at hname
          cases hname

/-- A comment is the one at a position of a tree, and what is said of it is the function that it
stands in there, and no other. -/
structure Attributed (language : Language) (tree : Tree) (p : Position) (comment : Syntax.Comment) :
    Prop where
  place : comment = tree.commentAt p
  function : ∀ f, functionOf language comment = f ↔ StandsIn language tree p f

theorem attributed_commentAt (language : Language) (h : t.at? p = some u) :
    Attributed language t p (t.commentAt p) where
  place := rfl
  function f := by
    have hstands : StandsIn language t p (functionOf language (t.commentAt p)) :=
      standsIn_enclosingFunction h
    exact ⟨fun hf => hf ▸ hstands, hstands.unique⟩

/-- **Comments and their functions.**  A traversal of a tree with a cursor ends, within twice as
many rounds as the tree has nodes.  It has then met just the comments that are in no other comment,
each of them once and in pre-order.  Along these go the comments of the tree; each is said to be in
the nearest function around it that goes by a name, and in none if there is no such function. -/
theorem comments_met_and_attributed (language : Language) (tree : Tree) :
    ∃ spots : List Position,
      Traversal.next^[2 * tree.size] (.start tree) = .ended spots ∧
      spots.Pairwise (· < ·) ∧ (∀ p, p ∈ spots ↔ tree.Outermost p) ∧
      List.Forall₂ (Attributed language tree) spots tree.comments := by
  refine ⟨tree.spots, Traversal.iterate_next_start tree, tree.pairwise_spots,
    fun p => Tree.mem_spots_iff, ?_⟩
  rw [Tree.comments_eq, List.forall₂_map_right_iff, List.forall₂_same]
  intro p hp
  obtain ⟨c, hc, -⟩ := (Tree.mem_spots_iff.mp hp).comment
  exact attributed_commentAt language hc

/-- A comment in a comment, and a nameless function in one that is the value of a variable. -/
def nestedTree : Tree :=
  .node .source none
    [.node .comment none [.token "/* ".toList, .node .comment none [.token "/* */".toList],
        .token " */".toList],
      .node .declarator (some "f".toList)
        [.token "f = ".toList,
          .node .function none
            [.node .comment none [.token "/**/".toList],
              .node .function none [.node .comment none [.token "//".toList]]]]]

example : Traversal.next^[2 * nestedTree.size] (.start nestedTree) =
    .ended [[0], [1, 1, 0], [1, 1, 1, 0]] := by
  rfl

example : nestedTree.comments.map (functionOf .javascript) = [none, some "f", some "f"] ∧
    nestedTree.comments.map (functionOf .rust) = [none, none, none] := by
  decide +kernel

end Extraction

end TodoIndex
