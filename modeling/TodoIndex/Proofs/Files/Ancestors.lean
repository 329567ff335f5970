import TodoIndex.Proofs.Files.Paths

/-! # The spelling of the directory above

The path without its last component is a beginning of the path up to a slash, and a component
that is not idle stands behind that slash.  Only three spellings are left when nothing is above:
the empty one, the root and the dot.
-/

namespace TodoIndex.Path

open Text (Bytes)

/-! ## Trimming -/

theorem length_trimTail_le (r : Bytes) : (trimTail r).length ≤ r.length := by
  fun_induction trimTail r with
  | case1 => simp
  | case2 b => simp
  | case3 c s ih => simp only [List.length_cons] at ih ⊢; omega
  | case4 b c s hb hc ih => simp only [List.length_cons] at ih ⊢; omega
  | case5 b c s hb hc => simp

theorem trimTail_ne_nil {r : Bytes} (h : r ≠ []) : trimTail r ≠ [] := by
  fun_induction trimTail r with
  | case1 => exact absurd rfl h
  | case2 b => simp
  | case3 c s ih => exact ih (by simp)
  | case4 b c s hb hc ih => exact ih (by simp)
  | case5 b c s hb hc => simp

theorem eq_nil_of_trimTail_slash {s : Bytes} (h : trimTail (slash :: s) = slash :: s) : s = [] := by
  cases s with
  | nil => rfl
  | cons c s =>
      have hlength := congrArg List.length h
      rw [trimTail, if_pos rfl] at hlength
      have hle := length_trimTail_le (c :: s)
      simp only [List.length_cons] at hlength hle
      omega

/-- What is trimmed stands at the head, up to a slash unless the root is left. -/
theorem trimTail_suffix (r : Bytes) : ∃ dropped, r = dropped ++ trimTail r ∧
    (dropped = [] ∨ trimTail r = [slash] ∨ ∃ init, dropped = init ++ [slash]) := by
  fun_induction trimTail r with
  | case1 => exact ⟨[], rfl, .inl rfl⟩
  | case2 b => exact ⟨[], rfl, .inl rfl⟩
  | case3 c s ih =>
      obtain ⟨dropped, heq, hlast⟩ := ih
      refine ⟨slash :: dropped, by rw [List.cons_append, ← heq], .inr ?_⟩
      rcases hlast with rfl | hroot | ⟨init, rfl⟩
      · exact .inr ⟨[], rfl⟩
      · exact .inl hroot
      · exact .inr ⟨slash :: init, rfl⟩
  | case4 b c s hb hc ih =>
      obtain ⟨dropped, heq, hlast⟩ := ih
      simp only [Bool.and_eq_true, decide_eq_true_eq] at hc
      obtain ⟨-, rfl⟩ := hc
      refine ⟨b :: dropped, by rw [List.cons_append, ← heq], .inr ?_⟩
      rcases hlast with rfl | hroot | ⟨init, rfl⟩
      · -- A slash is trimmed as well unless it is all that is left.
        obtain rfl := eq_nil_of_trimTail_slash heq.symm
        exact .inl rfl
      · exact .inl hroot
      · exact .inr ⟨b :: init, rfl⟩
  | case5 b c s hb hc => exact ⟨[], rfl, .inl rfl⟩

/-- A spelling that is read from a slash on is trimmed to the root, or goes on behind another
slash. -/
theorem trimTail_slash_cases (s : Bytes) :
    (trimTail (slash :: s) = [slash] ∧ ∃ dropped, slash :: s = dropped ++ [slash]) ∨
      (s ≠ [] ∧ ∃ dropped, slash :: s = dropped ++ slash :: trimTail (slash :: s)) := by
  obtain ⟨dropped, heq, hlast⟩ := trimTail_suffix (slash :: s)
  rcases hlast with rfl | hroot | ⟨init, rfl⟩
  · obtain rfl := eq_nil_of_trimTail_slash heq.symm
    exact .inl ⟨rfl, [], rfl⟩
  · exact .inl ⟨hroot, dropped, by rw [← hroot, ← heq]⟩
  · refine .inr ⟨?_, init, by simpa using heq⟩
    rintro rfl
    have hlength := congrArg List.length heq
    simp only [trimTail, List.length_append, List.length_cons, List.length_nil] at hlength
    omega

theorem trimTail_head (r : Bytes) {b c : UInt8} {s : Bytes} (h : trimTail r = b :: c :: s) :
    b ≠ slash ∧ ¬ (b = dot ∧ c = slash) := by
  fun_induction trimTail r with
  | case1 => cases h
  | case2 b => cases h
  | case3 c s ih => exact ih h
  | case4 b c s hb hc ih => exact ih h
  | case5 b c s hb hc =>
      cases h
      exact ⟨hb, by simpa using hc⟩

/-- A spelling read from its end up to the first slash: a component, and what is before it. -/
theorem split_at_slash (r : Bytes) : ∃ last, r = last ++ r.dropWhile (· != slash) ∧
    slash ∉ last ∧ ∀ b s, r.dropWhile (· != slash) = b :: s → b = slash := by
  refine ⟨r.takeWhile (· != slash), List.takeWhile_append_dropWhile.symm, ?_, ?_⟩
  · intro hmem
    simpa using List.all_eq_true.mp List.all_takeWhile slash hmem
  · intro b s hs
    have hb := List.head_dropWhile_not (· != slash) (by simp [hs] : r.dropWhile _ ≠ [])
    simpa [hs] using hb

/-- What stands alone behind a slash after trimming is neither empty nor a dot. -/
theorem not_isIdle_of_trimTail {r last s : Bytes} (h : trimTail r = last ++ slash :: s)
    (hs : s ≠ []) : ¬ IsIdle last.reverse := by
  rintro (hnil | hone)
  · obtain rfl : last = [] := by simpa using hnil
    obtain ⟨c, rest, rfl⟩ := List.exists_cons_of_ne_nil hs
    exact (trimTail_head r h).1 rfl
  · obtain rfl : last = [dot] := by simpa using congrArg List.reverse hone
    exact (trimTail_head r h).2 ⟨rfl, rfl⟩

/-! ## Components that count -/

/-- The pieces of a spelling that are not idle. -/
def steps (s : Bytes) : List Bytes :=
  (pieces s).filter fun piece => !decide (IsIdle piece)

theorem steps_append_slash (a b : Bytes) : steps (a ++ slash :: b) = steps a ++ steps b := by
  rw [steps, pieces_append_slash, List.filter_append]
  rfl

@[simp] theorem steps_nil : steps [] = [] := rfl

@[simp] theorem steps_dot : steps [dot] = [] := by
  decide

theorem steps_singleton {a : Bytes} (hslash : slash ∉ a) (hidle : ¬ IsIdle a) : steps a = [a] := by
  rw [steps, pieces_eq_singleton hslash, List.filter_cons_of_pos (by simpa using hidle)]
  rfl

/-- Trimming takes nothing away that counts. -/
theorem steps_trimTail (r : Bytes) : steps (trimTail r).reverse = steps r.reverse := by
  fun_induction trimTail r with
  | case1 => rfl
  | case2 b => rfl
  | case3 c s ih =>
      rw [ih, List.reverse_cons (a := slash), steps_append_slash, steps_nil, List.append_nil]
  | case4 b c s hb hc ih =>
      simp only [Bool.and_eq_true, decide_eq_true_eq] at hc
      obtain ⟨rfl, rfl⟩ := hc
      have hdot : (dot :: slash :: s).reverse = s.reverse ++ slash :: [dot] := by simp
      have hslash : (slash :: s).reverse = s.reverse ++ slash :: [] := by simp
      rw [ih, hdot, hslash, steps_append_slash, steps_append_slash, steps_nil, steps_dot]
  | case5 b c s hb hc => rfl

theorem steps_trimTail_slash (s : Bytes) :
    steps (trimTail (slash :: s)).reverse = steps s.reverse := by
  rw [steps_trimTail, List.reverse_cons, steps_append_slash, steps_nil, List.append_nil]

theorem length_steps_le {a : Bytes} (hslash : slash ∉ a) : (steps a).length ≤ 1 := by
  rw [steps, pieces_eq_singleton hslash]
  exact List.length_filter_le _ _

/-! ## Above -/

/-- A path goes on behind another one, up to its own last component. -/
def GoesOn (above p : Path) : Prop :=
  ∃ tail last, p.bytes = above.bytes ++ slash :: tail ∧ steps tail = [last] ∧ above.bytes ≠ []

/-- The directory above is written before the last component, or it is the root, or the path has
one component. -/
theorem above_of_parent? {p above : Path} (h : p.parent? = some above) (hnonempty : p.bytes ≠ []) :
    (above.bytes = [] ∧ p.isAbsolute = false ∧ (steps p.bytes).length ≤ 1) ∨
      (above.bytes = [slash] ∧ p.isAbsolute = true ∧ (steps p.bytes).length ≤ 1) ∨
      GoesOn above p := by
  have habove :
      above = ⟨(trimTail ((trimTail p.bytes.reverse).dropWhile (· != slash))).reverse⟩ := by
    unfold parent? at h
    split at h <;> cases h
    rfl
  subst habove
  obtain ⟨outer, houter, -⟩ := trimTail_suffix p.bytes.reverse
  have hidle := @not_isIdle_of_trimTail p.bytes.reverse
  have hne : trimTail p.bytes.reverse ≠ [] := trimTail_ne_nil (by simpa using hnonempty)
  have hsteps := steps_trimTail p.bytes.reverse
  rw [List.reverse_reverse] at hsteps
  generalize trimTail p.bytes.reverse = trimmed at houter hidle hne hsteps ⊢
  obtain ⟨last, hsplit, hlast, hhead⟩ := split_at_slash trimmed
  generalize trimmed.dropWhile (· != slash) = head at hsplit hhead ⊢
  have hbytes : p.bytes = head.reverse ++ (last.reverse ++ outer.reverse) := by
    rw [← List.reverse_reverse p.bytes, houter, hsplit]
    simp
  cases head with
  | nil =>
      obtain rfl : last = trimmed := by simpa using hsplit.symm
      obtain ⟨c, rest, hc⟩ := List.exists_cons_of_ne_nil (show last.reverse ≠ [] by simpa using hne)
      have hcslash : c ≠ slash := by
        rintro rfl
        exact hlast (by rw [← List.mem_reverse, hc]; exact List.mem_cons_self)
      refine .inl ⟨rfl, ?_, ?_⟩
      · rw [isAbsolute, hbytes, hc]
        simpa using hcslash
      · rw [← hsteps]
        exact length_steps_le (by simpa using hlast)
  | cons b s =>
      obtain rfl := hhead b s rfl
      have hfront := steps_trimTail_slash s
      have hwhole : steps p.bytes = steps s.reverse ++ steps last.reverse := by
        rw [← hsteps, hsplit, ← steps_append_slash]
        simp
      rcases trimTail_slash_cases s with ⟨hroot, inner, hinner⟩ | ⟨hs, inner, hinner⟩
      · refine .inr (.inl ⟨by simp [hroot], ?_, ?_⟩)
        · rw [isAbsolute, hbytes, hinner]
          simp
        · rw [hroot] at hfront
          rw [hwhole, ← hfront]
          exact length_steps_le (by simpa using hlast)
      · have hleft : trimTail (slash :: s) ≠ [] := trimTail_ne_nil (by simp)
        have htail : p.bytes = (trimTail (slash :: s)).reverse ++
            slash :: (inner.reverse ++ (last.reverse ++ outer.reverse)) := by
          generalize trimTail (slash :: s) = left at hinner
          rw [hbytes, hinner]
          simp
        refine .inr (.inr ⟨_, last.reverse, htail, ?_, by simpa using hleft⟩)
        have hboth := hwhole
        rw [htail, steps_append_slash, hfront] at hboth
        rw [List.append_cancel_left hboth]
        exact steps_singleton (by simpa using hlast) (hidle hsplit hs)

theorem exists_component? {piece : Bytes} (h : ¬ IsIdle piece) :
    ∃ c, component? piece = some c ∧ c ≠ .root := by
  have hi : (decide (piece = []) || decide (piece = [dot])) = false := by simpa [IsIdle] using h
  unfold component?
  rw [if_neg (by simp [hi])]
  split
  · exact ⟨.parent, rfl, by simp⟩
  · exact ⟨.normal piece, rfl, by simp⟩

/-- The last piece of a path is its last component if it counts. -/
theorem getLast?_components {p : Path} {front : List Bytes} {last : Bytes} {c : Component}
    (h : pieces p.bytes = front ++ [last]) (hlast : ¬ IsIdle last)
    (hc : component? last = some c) : p.components.getLast? = some c := by
  have hfilter : ∀ front, (front ++ [last]).filterMap component? =
      front.filterMap component? ++ [c] := by
    intro front
    simp [List.filterMap_append, hc]
  unfold components
  cases hbytes : p.bytes with
  | nil =>
      rw [hbytes] at h
      obtain ⟨-, rfl⟩ : front = [] ∧ [] = last := by
        simpa [pieces, List.singleton_eq_append_iff] using h
      exact absurd (.inl rfl) hlast
  | cons b s =>
      rw [hbytes] at h
      rw [h]
      cases front with
      | nil =>
          -- The path is one piece, which counts.
          have hslash : b ≠ slash := by
            rintro rfl
            rw [pieces_cons_slash] at h
            simp [pieces_ne_nil] at h
          have hdot : last ≠ [dot] := fun hdot => hlast (.inr hdot)
          simp [hslash, hdot, hc]
      | cons first front =>
          dsimp only [List.cons_append]
          split
          · rw [hfilter, List.getLast?_cons, List.getLast?_concat]
            rfl
          split
          · rw [hfilter, List.getLast?_cons, List.getLast?_concat]
            rfl
          · rw [← List.cons_append, hfilter, List.getLast?_concat]

/-- A path that ends in something that counts has a directory above. -/
theorem exists_parent? {p : Path} {front : List Bytes} {last : Bytes}
    (h : pieces p.bytes = front ++ [last]) (hlast : ¬ IsIdle last) :
    ∃ above, p.parent? = some above := by
  obtain ⟨c, hc, hroot⟩ := exists_component? hlast
  unfold parent?
  rw [getLast?_components h hlast hc]
  cases c with
  | root => exact absurd rfl hroot
  | current => exact ⟨_, rfl⟩
  | parent => exact ⟨_, rfl⟩
  | normal name => exact ⟨_, rfl⟩

end TodoIndex.Path
