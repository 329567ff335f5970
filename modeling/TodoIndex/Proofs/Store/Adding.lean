import TodoIndex.Proofs.Store.Projects

/-! # Adding remarks one by one

The places that are taken grow with every remark that is added.  A remark is added if its place is
not taken yet, so of all remarks at one place the first one is kept, in the order of the remarks.
-/

namespace TodoIndex

namespace Store

/-- Add remarks to a project one after the other, and gather which of them were added. -/
def addEach (s : Store) (name : String) : List Remark → List Bool × Store
  | [] => ([], s)
  | r :: remarks =>
      let (added, next) := s.addSingle name r
      let (answers, last) := next.addEach name remarks
      (added :: answers, last)

/-- Behind the old remarks and the first `i` others a remark is the first one at its place. -/
def IsFirst (old remarks : List Remark) (i : Nat) (r : Remark) : Prop :=
  r.place ∉ (old ++ remarks.take i).map Remark.place

instance (old remarks : List Remark) (i : Nat) (r : Remark) :
    Decidable (IsFirst old remarks i r) :=
  inferInstanceAs (Decidable (r.place ∉ _))

/-- For each remark whether it is the first one at its place. -/
def appearances (old remarks : List Remark) : List Bool :=
  remarks.mapIdx fun i r => decide (IsFirst old remarks i r)

/-- The first remark at each place where there is no old one, in the order of the remarks. -/
def firsts (old remarks : List Remark) : List Remark :=
  (remarks.mapIdx fun i r => if IsFirst old remarks i r then [r] else []).flatten

variable {s : Store} {name : String} {r : Remark} {old remarks : List Remark}

/-! ## First appearances -/

theorem isFirst_zero : IsFirst old remarks 0 r ↔ r.place ∉ old.map Remark.place := by
  rw [IsFirst, List.take_zero, List.append_nil]

/-- What is the first one behind a remark depends on the places up to that remark. -/
theorem isFirst_succ {more : List Remark}
    (h : ∀ p, p ∈ more.map Remark.place ↔ p ∈ (old ++ [r]).map Remark.place) (i : Nat)
    (later : Remark) : IsFirst old (r :: remarks) (i + 1) later ↔ IsFirst more remarks i later := by
  have hsplit : old ++ (r :: remarks).take (i + 1) = (old ++ [r]) ++ remarks.take i := by simp
  have happend : ∀ front : List Remark,
      later.place ∈ (front ++ remarks.take i).map Remark.place ↔
        later.place ∈ front.map Remark.place ∨
          later.place ∈ (remarks.take i).map Remark.place := fun front => by
    rw [List.map_append, List.mem_append]
  rw [IsFirst, IsFirst, hsplit, happend, happend, h]

/-- The remarks of a project after one more was added. -/
def extended (old : List Remark) (r : Remark) : List Remark :=
  old ++ if r.place ∈ old.map Remark.place then [] else [r]

theorem mem_places_extended (old : List Remark) (r : Remark) (p : List Path.Component × UInt32) :
    p ∈ (extended old r).map Remark.place ↔ p ∈ (old ++ [r]).map Remark.place := by
  unfold extended
  split
  · next htaken =>
      rw [List.append_nil, List.map_append, List.mem_append, List.map_singleton,
        List.mem_singleton]
      exact ⟨.inl, fun h => h.elim id fun heq => heq ▸ htaken⟩
  · exact Iff.rfl

theorem appearances_cons (old : List Remark) (r : Remark) (remarks : List Remark) :
    appearances old (r :: remarks) =
      decide (r.place ∉ old.map Remark.place) :: appearances (extended old r) remarks := by
  simp only [appearances, List.mapIdx_cons, isFirst_zero, isFirst_succ (mem_places_extended old r)]

theorem firsts_cons (old : List Remark) (r : Remark) (remarks : List Remark) :
    old ++ firsts old (r :: remarks) = extended old r ++ firsts (extended old r) remarks := by
  have hlater : firsts old (r :: remarks) =
      (if IsFirst old (r :: remarks) 0 r then [r] else []) ++ firsts (extended old r) remarks := by
    simp only [firsts, List.mapIdx_cons, List.flatten_cons,
      isFirst_succ (mem_places_extended old r)]
  rw [hlater, extended, ← List.append_assoc]
  by_cases h : r.place ∈ old.map Remark.place
  · rw [if_pos h, if_neg fun hfirst => isFirst_zero.mp hfirst h]
  · rw [if_neg h, if_pos (isFirst_zero.mpr h)]

/-! ## One remark -/

theorem addSingle_taken (h : r.place ∈ ((s.project? name).getD []).map Remark.place) :
    s.addSingle name r = (false, s) := by
  rw [addSingle_eq, if_pos (List.mem_map.mp h)]

theorem addSingle_free (h : r.place ∉ ((s.project? name).getD []).map Remark.place) :
    s.addSingle name r =
      (true, (s.replaceProject name ((s.project? name).getD [] ++ [r])).2) := by
  rw [addSingle_eq, if_neg fun htaken => h (List.mem_map.mpr htaken)]

theorem addSingle_answer (s : Store) (name : String) (r : Remark) :
    (s.addSingle name r).1 = decide (r.place ∉ ((s.project? name).getD []).map Remark.place) := by
  by_cases h : r.place ∈ ((s.project? name).getD []).map Remark.place
  · simp [addSingle_taken h, h]
  · simp [addSingle_free h, h]

theorem project?_addSingle (s : Store) (name : String) (r : Remark) :
    (s.addSingle name r).2.project? name = some (extended ((s.project? name).getD []) r) := by
  by_cases h : r.place ∈ ((s.project? name).getD []).map Remark.place
  · rw [addSingle_taken h, extended, if_pos h, List.append_nil]
    -- A project with a remark in it is there already.
    cases hproject : s.project? name with
    | none =>
        rw [hproject] at h
        cases h
    | some remarks => rfl
  · rw [addSingle_free h, extended, if_neg h]
    rw [project?_replaceProject, if_pos rfl]

theorem project?_addSingle_other {other : String} (h : other ≠ name) (r : Remark) :
    (s.addSingle name r).2.project? other = s.project? other := by
  rw [addSingle_eq]
  split
  · rfl
  · rw [project?_replaceProject, if_neg h]

/-! ## Several remarks -/

theorem addEach_answers (s : Store) (name : String) (remarks : List Remark) :
    (s.addEach name remarks).1 = appearances ((s.project? name).getD []) remarks := by
  induction remarks generalizing s with
  | nil => rfl
  | cons r remarks ih =>
      have hrest := ih (s.addSingle name r).2
      rw [project?_addSingle, Option.getD_some] at hrest
      rw [appearances_cons, ← addSingle_answer, ← hrest]
      rfl

theorem project?_addEach (s : Store) (name : String) (remarks : List Remark) :
    (s.addEach name remarks).2.project? name =
      if remarks = [] then s.project? name
      else some ((s.project? name).getD [] ++ firsts ((s.project? name).getD []) remarks) := by
  induction remarks generalizing s with
  | nil => rfl
  | cons r remarks ih =>
      have hrest := ih (s.addSingle name r).2
      rw [project?_addSingle, Option.getD_some, ← firsts_cons] at hrest
      rw [if_neg (List.cons_ne_nil r remarks)]
      change ((s.addSingle name r).2.addEach name remarks).2.project? name = _
      rw [hrest]
      split
      · next hnil => rw [hnil, firsts_cons]; simp [firsts]
      · rfl

theorem project?_addEach_other {other : String} (h : other ≠ name) (s : Store)
    (remarks : List Remark) : (s.addEach name remarks).2.project? other = s.project? other := by
  induction remarks generalizing s with
  | nil => rfl
  | cons r remarks ih => exact (ih _).trans (project?_addSingle_other h r)

/-- Remarks whose places are all taken leave the store as it is. -/
theorem addEach_taken
    (h : ∀ r ∈ remarks, r.place ∈ ((s.project? name).getD []).map Remark.place) :
    s.addEach name remarks = (remarks.map fun _ => false, s) := by
  induction remarks with
  | nil => rfl
  | cons r remarks ih =>
      obtain ⟨hfirst, hrest⟩ := List.forall_mem_cons.mp h
      rw [addEach, addSingle_taken hfirst]
      dsimp only
      rw [ih hrest, List.map_cons]

/-- Afterwards the place of every remark is taken. -/
theorem place_mem_append_firsts (old : List Remark) (h : r ∈ remarks) :
    r.place ∈ (old ++ firsts old remarks).map Remark.place := by
  induction remarks generalizing old with
  | nil => cases h
  | cons first remarks ih =>
      rw [firsts_cons]
      rcases List.mem_cons.mp h with rfl | h
      · rw [List.map_append, List.mem_append, mem_places_extended]
        exact .inl (by simp)
      · exact ih (extended old first) h

/-- **Added one by one, the first of each place is kept.**  Behind the former remarks of a project
stand, in their order, those remarks that were the first at their place; just these are said to be
added, and no other project changes.  To add the same remarks again changes nothing. -/
theorem added_are_first_appearances (s : Store) (name : String) (remarks : List Remark) :
    let old := (s.project? name).getD []
    let after := (s.addEach name remarks).2
    (s.addEach name remarks).1 = appearances old remarks ∧
      after.project? name =
        (if remarks = [] then s.project? name else some (old ++ firsts old remarks)) ∧
      (∀ other, other ≠ name → after.project? other = s.project? other) ∧
      after.addEach name remarks = (remarks.map fun _ => false, after) := by
  intro old after
  have hproject := project?_addEach s name remarks
  refine ⟨addEach_answers s name remarks, hproject,
    fun other hother => project?_addEach_other hother s remarks, addEach_taken fun r hr => ?_⟩
  rw [hproject, if_neg (List.ne_nil_of_mem hr), Option.getD_some]
  exact place_mem_append_firsts old hr

/-- The place of a remark is what its path and line say, however the path is written. -/
example :
    let remarkAt (path : String) (line : UInt32) (comment : String) : Remark :=
      ⟨comment, .ofString path, line, none⟩
    appearances [remarkAt "a/b.go" 1 "TODO: old"]
      [remarkAt "a//b.go" 1 "TODO: new", remarkAt "a/b.go" 2 "TODO: one",
        remarkAt "a/./b.go" 2 "TODO: two", remarkAt "b.go" 2 "TODO: one"] =
      [false, true, false, true] := by
  decide +kernel

end Store

end TodoIndex
