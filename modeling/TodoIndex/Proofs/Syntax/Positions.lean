import TodoIndex.Syntax.Tree

/-! # Positions in a syntax tree

A position is the way from the top of a tree to a node.  Of two nodes the one with the smaller
position begins first in the source.  The comments of a tree are gathered at the positions of the
outermost ones, at each of these once and in their order.
-/

namespace TodoIndex

namespace Syntax

/-- The numbers of the children on the way from the top of a tree to a node. -/
abbrev Position := List Nat

namespace Tree

def children : Tree → List Tree
  | .token _ => []
  | .node _ _ children => children

def isComment : Tree → Bool
  | .token _ => false
  | .node kind _ _ => kind == .comment

/-- The node at a position. -/
def at? (t : Tree) : Position → Option Tree
  | [] => some t
  | i :: p => t.children[i]?.bind (·.at? p)

/-- The source text in front of a position. -/
def before (t : Tree) : Position → List Char
  | [] => []
  | i :: p => textAll (t.children.take i) ++ (t.children[i]?.map (·.before p)).getD []

/-- What a node is for the nodes in it. -/
def outer : Tree → List Around
  | .token _ => []
  | .node kind name _ => [⟨kind, name⟩]

/-- The nodes around a position, the innermost first. -/
def around (t : Tree) : Position → List Around
  | [] => []
  | i :: p => (t.children[i]?.map (·.around p)).getD [] ++ t.outer

/-- The text of the node at a position. -/
def textAt (t : Tree) (p : Position) : List Char :=
  ((t.at? p).map text).getD []

/-- The comment at a position. -/
def commentAt (t : Tree) (p : Position) : Comment :=
  ⟨Text.lineFeeds (t.before p), t.textAt p, t.around p⟩

/-- At a position is a comment, and no node around it is one. -/
structure Outermost (t : Tree) (p : Position) : Prop where
  comment : ∃ c, t.at? p = some c ∧ c.isComment = true
  nowhere : ∀ q u, q <+: p → q ≠ p → t.at? q = some u → u.isComment = false

section Descent

variable {t c : Tree} {i : Nat}

@[simp] theorem at?_nil (t : Tree) : t.at? [] = some t := rfl

theorem at?_cons (hc : t.children[i]? = some c) (p : Position) : t.at? (i :: p) = c.at? p := by
  simp [at?, hc]

theorem before_cons (hc : t.children[i]? = some c) (p : Position) :
    t.before (i :: p) = textAll (t.children.take i) ++ c.before p := by
  simp [before, hc]

theorem around_cons (hc : t.children[i]? = some c) (p : Position) :
    t.around (i :: p) = c.around p ++ t.outer := by
  simp [around, hc]

theorem textAt_cons (hc : t.children[i]? = some c) (p : Position) :
    t.textAt (i :: p) = c.textAt p := by
  rw [textAt, at?_cons hc, textAt]

theorem exists_child_of_at? {p : Position} {u : Tree} (h : t.at? (i :: p) = some u) :
    ∃ c, t.children[i]? = some c ∧ c.at? p = some u :=
  Option.bind_eq_some_iff.mp h

theorem at?_append (t : Tree) (p q : Position) : t.at? (p ++ q) = (t.at? p).bind (·.at? q) := by
  induction p generalizing t with
  | nil => rfl
  | cons i p ih =>
      rw [List.cons_append, at?, at?, Option.bind_assoc]
      exact congrArg _ (funext fun c => ih c)

/-- Around a node below another one are the nodes down from that one, and those around it. -/
theorem around_append {p : Position} {u : Tree} (h : t.at? p = some u) (q : Position) :
    t.around (p ++ q) = u.around q ++ t.around p := by
  induction p generalizing t with
  | nil =>
      cases h
      simp [around]
  | cons i p ih =>
      obtain ⟨c, hc, hat⟩ := exists_child_of_at? h
      rw [List.cons_append, around_cons hc, around_cons hc, ih hat, List.append_assoc]

/-- A node that is not the top has a parent, the innermost of the nodes around it. -/
theorem exists_parent {p : Position} {u : Tree} (h : t.at? (p ++ [i]) = some u) :
    ∃ kind name children, t.at? p = some (.node kind name children) ∧
      t.around (p ++ [i]) = ⟨kind, name⟩ :: t.around p := by
  rw [at?_append] at h
  obtain ⟨parent, hparent, hchild⟩ := Option.bind_eq_some_iff.mp h
  obtain ⟨c, hc, -⟩ := exists_child_of_at? hchild
  cases parent with
  | token => cases hc
  | node kind name children =>
      refine ⟨kind, name, children, hparent, ?_⟩
      rw [around_append hparent, around_cons hc]
      rfl

/-- Below a node that is no comment the outermost comments are those of its children. -/
theorem outermost_cons_iff {p : Position} : t.Outermost (i :: p) ↔
    t.isComment = false ∧ ∃ c, t.children[i]? = some c ∧ c.Outermost p := by
  constructor
  · rintro ⟨⟨u, hu, hcomment⟩, hnowhere⟩
    obtain ⟨c, hc, hat⟩ := exists_child_of_at? hu
    refine ⟨hnowhere [] t List.nil_prefix (by simp) rfl, c, hc, ⟨u, hat, hcomment⟩, ?_⟩
    intro q v hq hne hv
    exact hnowhere (i :: q) v (List.cons_prefix_cons.mpr ⟨rfl, hq⟩) (by simpa using hne)
      (by rw [at?_cons hc, hv])
  · rintro ⟨htop, c, hc, ⟨u, hu, hcomment⟩, hnowhere⟩
    refine ⟨⟨u, by rw [at?_cons hc, hu], hcomment⟩, ?_⟩
    intro q v hq hne hv
    cases q with
    | nil =>
        cases hv
        exact htop
    | cons j q =>
        obtain ⟨rfl, hbelow⟩ := List.cons_prefix_cons.mp hq
        rw [at?_cons hc] at hv
        exact hnowhere q v hbelow (by simpa using hne) hv

theorem outermost_nil_iff : t.Outermost [] ↔ t.isComment = true := by
  constructor
  · rintro ⟨⟨u, hu, hcomment⟩, -⟩
    cases hu
    exact hcomment
  · intro h
    refine ⟨⟨t, rfl, h⟩, fun q u hq hne => ?_⟩
    exact absurd (List.prefix_nil.mp hq) hne

end Descent

/-! ## The order of the source -/

/-- A node is what is in front of one of its children, that child, and what is behind it. -/
theorem text_of_child {t c : Tree} {i : Nat} (hc : t.children[i]? = some c) :
    t.text = textAll (t.children.take i) ++ c.text ++ textAll (t.children.drop (i + 1)) := by
  cases t with
  | token s => cases hc
  | node kind name children =>
      have hat : children[i]? = some c := hc
      obtain ⟨hi, rfl⟩ := List.getElem?_eq_some_iff.mp hat
      calc (node kind name children).text
          = textAll (children.take i ++ children.drop i) := by
            rw [text_node, List.take_append_drop]
        _ = textAll (children.take i ++ children[i] :: children.drop (i + 1)) := by
            rw [List.drop_eq_getElem_cons hi]
        _ = textAll (children.take i) ++ children[i].text ++ textAll (children.drop (i + 1)) := by
            rw [textAll_append, textAll_cons, List.append_assoc]

/-- The source is what is in front of a node, its text, and what is behind it. -/
theorem exists_after {t u : Tree} {p : Position} (h : t.at? p = some u) :
    ∃ after, t.text = t.before p ++ u.text ++ after := by
  induction p generalizing t with
  | nil =>
      cases h
      exact ⟨[], by simp [before]⟩
  | cons i p ih =>
      obtain ⟨c, hc, hat⟩ := exists_child_of_at? h
      obtain ⟨after, hafter⟩ := ih hat
      refine ⟨after ++ textAll (t.children.drop (i + 1)), ?_⟩
      rw [text_of_child hc, before_cons hc, hafter]
      simp only [List.append_assoc]

theorem textAll_take_isPrefix {i j : Nat} (h : i ≤ j) (ts : List Tree) :
    textAll (ts.take i) <+: textAll (ts.take j) := by
  obtain ⟨more, hmore⟩ := List.take_prefix_take_left (l := ts) h
  exact ⟨textAll more, by rw [← hmore, textAll_append]⟩

/-- What is in front of a node is also in front of the nodes at larger positions. -/
theorem before_isPrefix {t u v : Tree} {p q : Position} (hpq : p < q) (hp : t.at? p = some u)
    (hq : t.at? q = some v) : t.before p <+: t.before q := by
  induction p generalizing t q with
  | nil => exact List.nil_prefix
  | cons i p ih =>
      cases q with
      | nil => exact absurd hpq (by simp)
      | cons j q =>
          obtain ⟨c, hc, hcp⟩ := exists_child_of_at? hp
          obtain ⟨d, hd, hdq⟩ := exists_child_of_at? hq
          rw [before_cons hc, before_cons hd]
          rcases List.cons_lt_cons_iff.mp hpq with hlt | ⟨rfl, hlt⟩
          -- In an earlier child: all of that child is in front of the later one.
          · obtain ⟨after, hafter⟩ := exists_after hcp
            have hfront : textAll (t.children.take i) ++ c.before p <+:
                textAll (t.children.take (i + 1)) := by
              obtain ⟨hi, rfl⟩ := List.getElem?_eq_some_iff.mp hc
              rw [List.take_succ_eq_append_getElem hi, textAll_append, textAll_cons, hafter]
              exact ⟨u.text ++ after, by simp [List.append_assoc]⟩
            exact (hfront.trans (textAll_take_isPrefix hlt _)).trans (List.prefix_append _ _)
          · rw [hc] at hd
            cases hd
            exact (List.prefix_append_right_inj _).mpr (ih hlt hcp hdq)

/-! ## Where the comments are -/

mutual

/-- The positions of the outermost comments, in the order in which the tree is visited. -/
def spots : Tree → List Position
  | .token _ => []
  | .node kind _ children => if kind = .comment then [[]] else spotsFrom 0 children

/-- The positions of the outermost comments of a row of trees whose first one has a number. -/
def spotsFrom (first : Nat) : List Tree → List Position
  | [] => []
  | t :: ts => t.spots.map (first :: ·) ++ spotsFrom (first + 1) ts

end

theorem spots_node {kind : Kind} (hkind : kind ≠ .comment) (name : Option (List Char))
    (children : List Tree) : (node kind name children).spots = spotsFrom 0 children := by
  rw [spots, if_neg hkind]

theorem mem_spotsFrom {first : Nat} {ts : List Tree} {p : Position} : p ∈ spotsFrom first ts ↔
    ∃ i q c, p = (first + i) :: q ∧ ts[i]? = some c ∧ q ∈ c.spots := by
  induction ts generalizing first with
  | nil => simp [spotsFrom]
  | cons t ts ih =>
      rw [spotsFrom, List.mem_append, List.mem_map, ih]
      constructor
      · rintro (⟨q, hq, rfl⟩ | ⟨i, q, c, rfl, hc, hq⟩)
        · exact ⟨0, q, t, rfl, rfl, hq⟩
        · exact ⟨i + 1, q, c, by rw [Nat.add_right_comm, Nat.add_assoc], hc, hq⟩
      · rintro ⟨_ | i, q, c, rfl, hc, hq⟩
        · cases hc
          exact .inl ⟨q, hq, rfl⟩
        · exact .inr ⟨i, q, c, by rw [Nat.add_right_comm, Nat.add_assoc], hc, hq⟩

/-- The positions that are visited are just those of the outermost comments. -/
theorem mem_spots_iff {t : Tree} {p : Position} : p ∈ t.spots ↔ t.Outermost p := by
  induction p generalizing t with
  | nil =>
      rw [outermost_nil_iff]
      cases t with
      | token s => simp [spots, isComment]
      | node kind name children =>
          by_cases hkind : kind = .comment
          · simp [spots, isComment, hkind]
          · simp [spots_node hkind, isComment, hkind, mem_spotsFrom]
  | cons i p ih =>
      rw [outermost_cons_iff]
      cases t with
      | token s => simp [spots, children]
      | node kind name children =>
          by_cases hkind : kind = .comment
          · simp [spots, isComment, hkind]
          · have hother : (node kind name children).isComment = false := by simp [isComment, hkind]
            rw [spots_node hkind, mem_spotsFrom]
            constructor
            · rintro ⟨j, q, c, heq, hc, hq⟩
              obtain ⟨rfl, rfl⟩ := List.cons.inj heq
              exact ⟨hother, c, by simpa [Tree.children] using hc, ih.mp hq⟩
            · rintro ⟨-, c, hc, hp⟩
              exact ⟨i, p, c, by rw [Nat.zero_add], hc, ih.mpr hp⟩

mutual

theorem pairwise_spots : (t : Tree) → t.spots.Pairwise (· < ·)
  | .token _ => by simp [spots]
  | .node kind name children => by
      by_cases hkind : kind = .comment
      · simp [spots, hkind]
      · rw [spots_node hkind]
        exact pairwise_spotsFrom 0 children

theorem pairwise_spotsFrom :
    (first : Nat) → (ts : List Tree) → (spotsFrom first ts).Pairwise (· < ·)
  | _, [] => by simp [spotsFrom]
  | first, t :: ts => by
      rw [spotsFrom, List.pairwise_append, List.pairwise_map]
      refine ⟨?_, pairwise_spotsFrom (first + 1) ts, ?_⟩
      · exact (pairwise_spots t).imp fun hlt => List.cons_lt_cons_iff.mpr (.inr ⟨rfl, hlt⟩)
      · rintro _ hp _ hq
        obtain ⟨p, -, rfl⟩ := List.mem_map.mp hp
        obtain ⟨i, q, c, rfl, -, -⟩ := mem_spotsFrom.mp hq
        exact List.cons_lt_cons_iff.mpr (.inl (by omega))

end

/-! ## Gathering -/

/-- The comment at a position of a tree that begins in a row, inside some nodes. -/
def commentFrom (row : Nat) (outside : List Around) (t : Tree) (p : Position) : Comment :=
  ⟨row + Text.lineFeeds (t.before p), t.textAt p, t.around p ++ outside⟩

/-- The comments of a tree that begins in a row, inside some nodes. -/
def commentsFrom (row : Nat) (outside : List Around) (t : Tree) : List Comment :=
  t.spots.map (t.commentFrom row outside)

/-- The comments of the pending trees, the first of which begins in a row. -/
def pendingComments (row : Nat) : List (List Around × Tree) → List Comment
  | [] => []
  | (outside, t) :: more =>
      t.commentsFrom row outside ++ pendingComments (row + Text.lineFeeds t.text) more

theorem pendingComments_entering (row : Nat) (outside : List Around) (ts : List Tree)
    (more : List (List Around × Tree)) :
    pendingComments row (entering outside ts ++ more) =
      pendingComments row (entering outside ts) ++
        pendingComments (row + Text.lineFeeds (textAll ts)) more := by
  induction ts generalizing row with
  | nil => simp [entering, pendingComments]
  | cons t ts ih =>
      simp only [entering, List.cons_append, pendingComments, ih, textAll_cons,
        Text.lineFeeds_append, List.append_assoc, Nat.add_assoc]

theorem commentFrom_cons {t c : Tree} {i : Nat} (hc : t.children[i]? = some c) (row : Nat)
    (outside : List Around) (p : Position) :
    t.commentFrom row outside (i :: p) =
      c.commentFrom (row + Text.lineFeeds (textAll (t.children.take i)))
        (t.outer ++ outside) p := by
  simp only [commentFrom, before_cons hc, textAt_cons hc, around_cons hc, Text.lineFeeds_append,
    List.append_assoc, Nat.add_assoc]

/-- The positions in some of the children hold the comments of these, as they are entered. -/
theorem map_spotsFrom {t : Tree} (row : Nat) (outside : List Around) {done ts : List Tree}
    (h : t.children = done ++ ts) :
    (spotsFrom done.length ts).map (t.commentFrom row outside) =
      pendingComments (row + Text.lineFeeds (textAll done)) (entering (t.outer ++ outside) ts) := by
  induction ts generalizing done with
  | nil => rfl
  | cons c ts ih =>
      have hc : t.children[done.length]? = some c := by simp [h]
      have hdone : t.children.take done.length = done := by simp [h]
      have hnext : t.children = (done ++ [c]) ++ ts := by simp [h]
      have hlater := ih hnext
      simp only [List.length_append, List.length_singleton, textAll_append, textAll_cons,
        textAll_nil, List.append_nil, Text.lineFeeds_append, ← Nat.add_assoc] at hlater
      rw [spotsFrom, List.map_append, List.map_map, hlater, entering, pendingComments,
        commentsFrom]
      congr 1
      refine List.map_congr_left fun p _ => ?_
      rw [Function.comp_apply, commentFrom_cons hc, hdone]

/-- A node that is no comment holds the comments of its children. -/
theorem commentsFrom_node {kind : Kind} (hkind : kind ≠ .comment) (name : Option (List Char))
    (row : Nat) (outside : List Around) (children : List Tree) :
    (node kind name children).commentsFrom row outside =
      pendingComments row (entering (⟨kind, name⟩ :: outside) children) := by
  have hall : (node kind name children).children = [] ++ children := rfl
  rw [commentsFrom, spots_node hkind]
  exact map_spotsFrom row outside hall

theorem gatherComments_eq (row : Nat) (pending : List (List Around × Tree)) :
    gatherComments row pending = pendingComments row pending := by
  induction row, pending using gatherComments.induct with
  | case1 row => rw [gatherComments, pendingComments]
  | case2 row around s more ih =>
      rw [gatherComments, ih]
      simp [pendingComments, commentsFrom, spots]
  | case3 row around name children more raw ih =>
      have hread : gatherComments row ((around, node .comment name children) :: more) =
          ⟨row, raw, around⟩ :: gatherComments (row + Text.lineFeeds raw) more := by
        rw [gatherComments, if_pos rfl]
      rw [hread, ih]
      simp [pendingComments, commentsFrom, commentFrom, spots, before, textAt, Tree.around, raw]
  | case4 row around kind name children more hkind ih =>
      rw [gatherComments, if_neg hkind, ih, pendingComments_entering, pendingComments,
        commentsFrom_node hkind, text_node]

/-- The comments of a tree are those at the positions of its outermost comments. -/
theorem comments_eq (t : Tree) : t.comments = t.spots.map t.commentAt := by
  rw [comments, gatherComments_eq, pendingComments, pendingComments, List.append_nil, commentsFrom]
  refine List.map_congr_left fun p _ => ?_
  simp [commentFrom, commentAt]

end Tree

end Syntax

end TodoIndex
