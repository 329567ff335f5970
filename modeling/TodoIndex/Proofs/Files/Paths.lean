import TodoIndex.Proofs.Files.Resolution

/-! # Pieces and order of paths

Where a slash stands between two spellings, the pieces of the whole are the pieces of both.  What
is not idle among them is all that matters on the way to a directory.

Paths are ordered by their components one by one, and names by their bytes.  The order is total,
and what it cannot tell apart are spellings of one path.
-/

namespace TodoIndex

open Text (Bytes)

namespace Path

/-! ## Pieces -/

section

variable {p folder : Path} {a b : Bytes}

theorem pieces_cons_slash (s : Bytes) : pieces (slash :: s) = [] :: pieces s := by
  rw [pieces, if_pos rfl]

theorem pieces_cons_of_ne {c : UInt8} (h : c ≠ slash) {s piece : Bytes} {rest : List Bytes}
    (hs : pieces s = piece :: rest) : pieces (c :: s) = (c :: piece) :: rest := by
  rw [pieces, if_neg h, hs]

theorem pieces_ne_nil (s : Bytes) : pieces s ≠ [] := by
  cases s with
  | nil => simp [pieces]
  | cons c s =>
      rw [pieces]
      split
      · simp
      · split <;> simp

theorem pieces_append_slash (a b : Bytes) : pieces (a ++ slash :: b) = pieces a ++ pieces b := by
  induction a with
  | nil => simp [pieces]
  | cons c a ih =>
      rw [List.cons_append]
      by_cases hc : c = slash
      · subst hc
        rw [pieces_cons_slash, pieces_cons_slash, ih, List.cons_append]
      · obtain ⟨piece, rest, ha⟩ := List.exists_cons_of_ne_nil (pieces_ne_nil a)
        have hab : pieces (a ++ slash :: b) = piece :: (rest ++ pieces b) := by
          rw [ih, ha, List.cons_append]
        rw [pieces_cons_of_ne hc hab, pieces_cons_of_ne hc ha, List.cons_append]

theorem pieces_eq_singleton (h : slash ∉ a) : pieces a = [a] := by
  induction a with
  | nil => rfl
  | cons c a ih =>
      exact pieces_cons_of_ne (List.ne_of_not_mem_cons h).symm (ih (List.not_mem_of_not_mem_cons h))

/-- An entry of a directory has the pieces of the directory and its name. -/
theorem pieces_child (folder : Path) {name : Bytes} (hslash : slash ∉ name) :
    ∃ front, pieces (folder.child name).bytes = front ++ [name] ∧
      (pieces folder.bytes = front ∨ pieces folder.bytes = front ++ [[]]) := by
  have hname : pieces name = [name] := pieces_eq_singleton hslash
  have hrelative : (⟨name⟩ : Path).isAbsolute = false := by
    cases name with
    | nil => rfl
    | cons c name =>
        have hc : c ≠ slash := (List.ne_of_not_mem_cons hslash).symm
        simp [isAbsolute, hc]
  unfold child join
  rw [if_neg (by simp [hrelative])]
  split
  · rename_i hend
    simp only [Bool.or_eq_true, List.isEmpty_iff, beq_iff_eq] at hend
    rcases hend with hempty | hlast
    · exact ⟨[], by simp [hempty, hname], .inr (by simp [hempty, pieces])⟩
    · obtain ⟨init, hinit⟩ := List.getLast?_eq_some_iff.mp hlast
      refine ⟨pieces init, ?_, .inr ?_⟩
      · rw [hinit, List.append_assoc, List.singleton_append, pieces_append_slash, hname]
      · rw [hinit, pieces_append_slash]
        rfl
  · exact ⟨pieces folder.bytes, by rw [pieces_append_slash, hname], .inl rfl⟩

end

/-! ## Order -/

theorem compareBytes_eq_compareLex : compareBytes = List.compareLex Ord.compare := by
  funext s
  induction s with
  | nil =>
      funext t
      cases t <;> rfl
  | cons a s ih =>
      funext t
      cases t with
      | nil => rfl
      | cons b t => rw [compareBytes, ih, List.compareLex_cons_cons]

instance : Std.TransCmp compareBytes := by
  rw [compareBytes_eq_compareLex]
  infer_instance

namespace Component

/-- The kind of a component and, of a name, its bytes. -/
def key : Component → Bytes
  | .root => [0]
  | .current => [1]
  | .parent => [2]
  | .normal name => 3 :: name

theorem compare_eq_key (c d : Component) : c.compare d = compareBytes c.key d.key := by
  cases c <;> cases d <;> rfl

instance : Std.TransCmp Component.compare where
  eq_swap := by
    intro c d
    rw [compare_eq_key, compare_eq_key]
    exact Std.OrientedCmp.eq_swap
  isLE_trans := by
    intro c d e hcd hde
    rw [compare_eq_key] at hcd hde ⊢
    exact Std.TransCmp.isLE_trans hcd hde

instance : Std.LawfulEqCmp Component.compare where
  compare_self := by
    intro c
    rw [compare_eq_key]
    exact compareBytes_eq_iff.mpr rfl
  eq_of_compare := by
    intro c d h
    rw [compare_eq_key, compareBytes_eq_iff] at h
    cases c <;> cases d <;> simp_all [key]

end Component

theorem compareComponents_eq_compareLex :
    compareComponents = List.compareLex Component.compare := by
  funext p
  induction p with
  | nil =>
      funext q
      cases q <;> rfl
  | cons c p ih =>
      funext q
      cases q with
      | nil => rfl
      | cons d q => rw [compareComponents, ih, List.compareLex_cons_cons]

/-- The order of paths is total. -/
instance : Std.TransCmp Path.compare where
  eq_swap := by
    intro p q
    simp only [compare, compareComponents_eq_compareLex]
    exact Std.OrientedCmp.eq_swap
  isLE_trans := by
    intro p q r hpq hqr
    simp only [compare, compareComponents_eq_compareLex] at hpq hqr ⊢
    exact Std.TransCmp.isLE_trans hpq hqr

theorem same_comm (p q : Path) : p.same q = q.same p :=
  BEq.comm

theorem same_congr {p q : Path} (h : p.same q = true) (r : Path) : p.same r = q.same r := by
  rw [same, same, same_iff.mp h]

theorem same_congr_right {p q : Path} (h : p.same q = true) (r : Path) :
    r.same p = r.same q := by
  rw [same, same, same_iff.mp h]

/-- The order cannot tell two spellings of a path apart, but any two paths. -/
theorem compare_eq_iff {p q : Path} : p.compare q = .eq ↔ p.same q = true := by
  rw [compare, compareComponents_eq_compareLex, Std.LawfulEqCmp.compare_eq_iff_eq, same_iff]

end Path

end TodoIndex
