import TodoIndex.Proofs.Files.Ancestors

/-! # Paths of what is below a directory

The path of an entry has the components of its directory and the name of the entry, and what is
above it is the directory again, however that was spelled.  So the paths below a directory are
told apart by their places there.
-/

namespace TodoIndex

open Text (Bytes)

/-- A name that an entry of a directory can have. -/
def IsEntryName (name : Bytes) : Prop :=
  ¬ IsIdle name ∧ name ≠ [Path.dot, Path.dot] ∧ Path.slash ∉ name

instance (name : Bytes) : Decidable (IsEntryName name) :=
  inferInstanceAs (Decidable (_ ∧ _ ∧ _))

namespace Path

variable {p root : Path} {name : Bytes}

/-! ## Components -/

theorem component?_name (h : IsEntryName name) : component? name = some (.normal name) := by
  obtain ⟨hidle, hup, -⟩ := h
  have hsaid : (decide (name = []) || decide (name = [dot])) = false := by
    simpa [IsIdle] using hidle
  unfold component?
  rw [if_neg (by simp [hsaid]), if_neg hup]

theorem components_cons {b : UInt8} {s first : Bytes} {rest : List Bytes}
    (h : pieces (b :: s) = first :: rest) : components ⟨b :: s⟩ =
      if b = slash then .root :: rest.filterMap component?
      else if first = [dot] then .current :: rest.filterMap component?
      else (first :: rest).filterMap component? := by
  simp [components, h]

/-- What is written behind a slash only adds components. -/
theorem components_append_slash {a : Bytes} (ha : a ≠ []) (b : Bytes) :
    components ⟨a ++ slash :: b⟩ = components ⟨a⟩ ++ (pieces b).filterMap component? := by
  obtain ⟨c, s, rfl⟩ := List.exists_cons_of_ne_nil ha
  obtain ⟨first, rest, hpieces⟩ := List.exists_cons_of_ne_nil (pieces_ne_nil (c :: s))
  have hboth : pieces (c :: (s ++ slash :: b)) = first :: (rest ++ pieces b) := by
    rw [← List.cons_append, pieces_append_slash, hpieces, List.cons_append]
  rw [List.cons_append, components_cons hboth, components_cons hpieces]
  split
  · simp
  split
  · simp
  · simp only [← List.filterMap_append, List.cons_append]

theorem components_slash (b : Bytes) :
    components ⟨slash :: b⟩ = .root :: (pieces b).filterMap component? := by
  rw [components_cons (pieces_cons_slash b), if_pos rfl]

theorem child_bytes (hname : IsEntryName name) (hroot : root.bytes ≠ []) :
    (root.child name).bytes = root.bytes ++ slash :: name ∨
      ∃ init, root.bytes = init ++ [slash] ∧ (root.child name).bytes = init ++ slash :: name := by
  have hrelative : (⟨name⟩ : Path).isAbsolute = false := by
    cases name with
    | nil => rfl
    | cons c s =>
        have hc : c ≠ slash := (List.ne_of_not_mem_cons hname.2.2).symm
        simp [isAbsolute, hc]
  unfold child join
  rw [if_neg (by simp [hrelative])]
  split
  · rename_i hend
    have hlast : root.bytes.getLast? = some slash := by simpa [hroot] using hend
    obtain ⟨init, hinit⟩ := List.getLast?_eq_some_iff.mp hlast
    exact .inr ⟨init, hinit, by simp [hinit]⟩
  · exact .inl rfl

theorem child_ne_nil (hname : IsEntryName name) (hroot : root.bytes ≠ []) :
    (root.child name).bytes ≠ [] := by
  rcases child_bytes hname hroot with h | ⟨init, -, h⟩ <;> simp [h]

theorem components_child (hname : IsEntryName name) (hroot : root.bytes ≠ []) :
    (root.child name).components = root.components ++ [.normal name] := by
  have hpieces : (pieces name).filterMap component? = [.normal name] := by
    simp [pieces_eq_singleton hname.2.2, component?_name hname]
  obtain ⟨bytes⟩ := root
  rcases child_bytes hname hroot with h | ⟨init, hinit, h⟩
  · have hchild : Path.child ⟨bytes⟩ name = ⟨bytes ++ slash :: name⟩ := by
      rw [← h]
    rw [hchild, components_append_slash hroot, hpieces]
  · have hchild : Path.child ⟨bytes⟩ name = ⟨init ++ slash :: name⟩ := by
      rw [← h]
    obtain rfl : bytes = init ++ [slash] := hinit
    rw [hchild]
    cases init with
    | nil => rw [List.nil_append, List.nil_append, components_slash, components_slash, hpieces]; rfl
    | cons c s =>
        have hends : (pieces []).filterMap component? = [] := rfl
        rw [components_append_slash (by simp), components_append_slash (by simp), hpieces, hends,
          List.append_nil]

/-! ## Above an entry -/

/-- Trimming does not change where a path leads. -/
theorem components_trimTail {r : Bytes} :
    components ⟨(trimTail r).reverse⟩ = components ⟨r.reverse⟩ := by
  fun_induction trimTail r with
  | case1 => rfl
  | case2 b => rfl
  | case3 c s ih =>
      rw [ih, List.reverse_cons (a := slash), components_append_slash (by simp)]
      simp [pieces, component?]
  | case4 b c s hb hc ih =>
      simp only [Bool.and_eq_true, decide_eq_true_eq] at hc
      obtain ⟨rfl, rfl⟩ := hc
      have hdot : (dot :: slash :: s).reverse = s.reverse ++ slash :: [dot] := by simp
      have hslash : (slash :: s).reverse = s.reverse ++ slash :: [] := by simp
      rw [ih, hdot, hslash]
      by_cases hs : s = []
      · subst hs
        rfl
      · have hne : s.reverse ≠ [] := by simpa using hs
        rw [components_append_slash hne, components_append_slash hne]
        rfl
  | case5 b c s hb hc => rfl

/-- Behind a slash a name stays when what says nothing is trimmed. -/
theorem trimTail_name (hname : IsEntryName name) (s : Bytes) :
    trimTail (name.reverse ++ slash :: s) = name.reverse ++ slash :: s := by
  obtain ⟨hidle, -, hslash⟩ := hname
  have hreverse : slash ∉ name.reverse := by simpa using hslash
  cases hr : name.reverse with
  | nil => exact absurd (.inl (by simpa using hr)) hidle
  | cons c t =>
      rw [hr] at hreverse
      have hc : c ≠ slash := (List.ne_of_not_mem_cons hreverse).symm
      cases t with
      | nil =>
          have hdot : c ≠ dot := by
            rintro rfl
            exact hidle (.inr (by simpa using congrArg List.reverse hr))
          simp [trimTail, hc, hdot]
      | cons d t =>
          have hd : d ≠ slash :=
            (List.ne_of_not_mem_cons (List.not_mem_of_not_mem_cons hreverse)).symm
          simp [trimTail, hc, hd]

theorem dropWhile_name (hname : IsEntryName name) (s : Bytes) :
    (name.reverse ++ slash :: s).dropWhile (· != slash) = slash :: s := by
  have hall : ∀ b ∈ name.reverse, (b != slash) = true := by
    intro b hb
    have hne : b ≠ slash := by
      rintro rfl
      exact hname.2.2 (by simpa using hb)
    simpa using hne
  rw [List.dropWhile_append_of_pos hall, List.dropWhile_cons_of_neg (by simp)]

/-- Above an entry is its directory, though it may be spelled in another way. -/
theorem parent?_child (hname : IsEntryName name) (hroot : root.bytes ≠ []) :
    ∃ above, (root.child name).parent? = some above ∧ root.same above = true := by
  have hlast : (root.child name).components.getLast? = some (.normal name) := by
    rw [components_child hname hroot, List.getLast?_concat]
  obtain ⟨init, hchild, hinit⟩ : ∃ init, (root.child name).bytes = init ++ slash :: name ∧
      root.components = components ⟨init ++ [slash]⟩ := by
    rcases child_bytes hname hroot with h | ⟨init, hinit, h⟩
    · refine ⟨root.bytes, h, ?_⟩
      rw [components_append_slash hroot]
      exact (List.append_nil _).symm
    · exact ⟨init, h, by rw [← hinit]⟩
  have habove : (root.child name).parent? = some ⟨(trimTail (slash :: init.reverse)).reverse⟩ := by
    have hreverse : (root.child name).bytes.reverse = name.reverse ++ slash :: init.reverse := by
      simp [hchild]
    rw [parent?, hlast]
    dsimp only
    rw [hreverse, trimTail_name hname, dropWhile_name hname]
  refine ⟨_, habove, ?_⟩
  rw [same_iff, components_trimTail, hinit]
  simp

/-! ## Places below a directory -/

/-- The path of a place below a directory, as a walk spells it. -/
def descend (root : Path) (place : List Bytes) : Path :=
  place.foldl child root

variable {place other : List Bytes}

theorem descend_cons (root : Path) (name : Bytes) (place : List Bytes) :
    root.descend (name :: place) = (root.child name).descend place := rfl

theorem descend_concat (root : Path) (place : List Bytes) (name : Bytes) :
    root.descend (place ++ [name]) = (root.descend place).child name := by
  simp [descend]

theorem descend_ne_nil (hplace : ∀ name ∈ place, IsEntryName name) (hroot : root.bytes ≠ []) :
    (root.descend place).bytes ≠ [] := by
  induction place generalizing root with
  | nil => exact hroot
  | cons name place ih =>
      obtain ⟨hname, hplace⟩ := List.forall_mem_cons.mp hplace
      exact ih hplace (child_ne_nil hname hroot)

theorem components_descend (hplace : ∀ name ∈ place, IsEntryName name) (hroot : root.bytes ≠ []) :
    (root.descend place).components = root.components ++ place.map .normal := by
  induction place generalizing root with
  | nil => exact (List.append_nil _).symm
  | cons name place ih =>
      obtain ⟨hname, hplace⟩ := List.forall_mem_cons.mp hplace
      rw [descend_cons, ih hplace (child_ne_nil hname hroot), components_child hname hroot]
      simp

/-- The paths of two places lead to one place only if they are the same. -/
theorem same_descend_iff (hplace : ∀ name ∈ place, IsEntryName name)
    (hother : ∀ name ∈ other, IsEntryName name) (hroot : root.bytes ≠ []) :
    (root.descend place).same (root.descend other) = true ↔ place = other := by
  rw [same_iff, components_descend hplace hroot, components_descend hother hroot,
    List.append_cancel_left_eq]
  exact List.map_inj_right fun _ _ h => Component.normal.inj h

theorem componentsAfter?_eq_some_iff {lead all rest : List Component} :
    componentsAfter? lead all = some rest ↔ all = lead ++ rest := by
  induction lead generalizing all with
  | nil => simp [componentsAfter?]
  | cons c lead ih =>
      cases all with
      | nil => simp [componentsAfter?]
      | cons d all =>
          rw [componentsAfter?, List.cons_append, List.cons.injEq]
          split
          · rename_i hcd
            rw [ih]
            exact (and_iff_right hcd.symm).symm
          · rename_i hcd
            simp [Ne.symm hcd]

theorem below?_eq_some_iff {rest : List Component} :
    below? root p = some rest ↔ p.components = root.components ++ rest :=
  componentsAfter?_eq_some_iff

theorem below?_descend (hplace : ∀ name ∈ place, IsEntryName name) (hroot : root.bytes ≠ []) :
    below? root (root.descend place) = some (place.map .normal) := by
  rw [below?_eq_some_iff, components_descend hplace hroot]

/-! ## Within a directory -/

/-- Whether a path is that of a root with nothing but names behind it. -/
def within (p root : Path) : Bool :=
  match below? root p with
  | some rest => rest.all fun c => decide (c = .normal c.bytes)
  | none => false

theorem within_iff : p.within root = true ↔
    ∃ place : List Bytes, p.components = root.components ++ place.map .normal := by
  unfold within
  constructor
  · intro h
    split at h
    · rename_i rest hrest
      refine ⟨rest.map Component.bytes, ?_⟩
      have hall : ∀ c ∈ rest, Component.normal c.bytes = c :=
        fun c hc => (of_decide_eq_true (List.all_eq_true.mp h c hc)).symm
      have hsame : (rest.map Component.bytes).map .normal = rest := by
        rw [List.map_map]
        exact (List.map_congr_left hall).trans (List.map_id' rest)
      rw [below?_eq_some_iff.mp hrest, hsame]
    · cases h
  · rintro ⟨place, hplace⟩
    rw [below?_eq_some_iff.mpr hplace]
    simp [Component.bytes]

theorem startsWith_of_within (h : p.within root = true) : p.startsWith root = true := by
  obtain ⟨place, hplace⟩ := within_iff.mp h
  rw [startsWith, below?_eq_some_iff.mpr hplace]
  rfl

theorem within_congr {q : Path} (h : p.same q = true) : p.within root = q.within root := by
  rw [within, within, below?, below?, same_iff.mp h]

theorem within_self (p : Path) : p.within p = true :=
  within_iff.mpr ⟨[], (List.append_nil _).symm⟩

theorem within_of_same {q : Path} (h : p.same q = true) : p.within q = true :=
  (within_congr h).trans (within_self q)

theorem within_descend (hplace : ∀ name ∈ place, IsEntryName name) (hroot : root.bytes ≠ []) :
    (root.descend place).within root = true :=
  within_iff.mpr ⟨place, components_descend hplace hroot⟩

end Path

end TodoIndex
