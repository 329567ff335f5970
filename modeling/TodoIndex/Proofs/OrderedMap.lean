import TodoIndex.OrderedMap

/-! # Laws of ordered maps

What a map holds under a name after it was changed under that name or another one, and that a
map is made again from its own entries.
-/

namespace TodoIndex.OrderedMap

variable {α β : Type} {κ : Type} {name other : String} {value : α} {entries : List (String × α)}

instance [DecidableEq α] : DecidableEq (OrderedMap α) := fun m n =>
  decidable_of_iff (m.entries = n.entries) ⟨OrderedMap.ext, congrArg OrderedMap.entries⟩

theorem setEntry_of_not_mem (h : name ∉ entries.map Prod.fst) :
    setEntry name value entries = entries ++ [(name, value)] := by
  induction entries with
  | nil => rfl
  | cons e entries ih =>
      obtain ⟨first, old⟩ := e
      simp only [List.map_cons, List.mem_cons, not_or] at h
      rw [setEntry, if_neg (Ne.symm h.1), ih h.2, List.cons_append]

theorem mem_setEntry {e : String × α} (h : e ∈ setEntry name value entries) :
    e = (name, value) ∨ e ∈ entries := by
  induction entries with
  | nil => exact .inl (by simpa [setEntry] using h)
  | cons first entries ih =>
      obtain ⟨other, old⟩ := first
      rw [setEntry] at h
      split at h
      · exact (List.mem_cons.mp h).imp id (List.mem_cons_of_mem _)
      · rcases List.mem_cons.mp h with rfl | h
        · exact .inr List.mem_cons_self
        · exact (ih h).imp id (List.mem_cons_of_mem _)

theorem mem_of_lookup [BEq κ] [LawfulBEq κ] {key : κ} {value : β} {entries : List (κ × β)}
    (h : entries.lookup key = some value) : (key, value) ∈ entries := by
  obtain ⟨before, after, rfl, -⟩ := List.lookup_eq_some_iff.mp h
  exact List.mem_append_right before List.mem_cons_self

theorem mem_of_get? {m : OrderedMap α} (h : m.get? name = some value) :
    (name, value) ∈ m.entries :=
  mem_of_lookup h

/-! ## Look-ups -/

section
variable [BEq κ] [LawfulBEq κ] [DecidableEq κ]

theorem lookup_cons_entry (key other : κ) (value : α) (entries : List (κ × α)) :
    ((key, value) :: entries).lookup other =
      if other = key then some value else entries.lookup other := by
  rw [List.lookup_cons]
  by_cases h : other = key
  · simp [h]
  · have hb : (other == key) = false := by simpa using h
    simp [h, hb]

omit [DecidableEq κ] in
theorem lookup_eq_none_iff_not_mem {key : κ} {entries : List (κ × α)} :
    entries.lookup key = none ↔ key ∉ entries.map Prod.fst := by
  rw [List.lookup_eq_none_iff]
  constructor
  · rintro h hmem
    obtain ⟨e, he, rfl⟩ := List.mem_map.mp hmem
    simpa using h e he
  · intro h e he
    have hne : key ≠ e.1 := fun heq => h (heq ▸ List.mem_map_of_mem he)
    simpa using hne

theorem lookup_filter_ne (key other : κ) (entries : List (κ × α)) :
    (entries.filter fun e => !decide (e.1 = key)).lookup other =
      if other = key then none else entries.lookup other := by
  induction entries with
  | nil => simp
  | cons e entries ih =>
      obtain ⟨first, old⟩ := e
      by_cases hk : first = key
      · subst hk
        rw [List.filter_cons_of_neg (by simp), ih]
        by_cases h : other = first <;> simp [lookup_cons_entry, h]
      · rw [List.filter_cons_of_pos (by simpa using hk)]
        by_cases h : other = first
        · subst h
          simp [hk]
        · simp [lookup_cons_entry, h, ih]

end

theorem lookup_setEntry (entries : List (String × α)) (name other : String) (value : α) :
    (setEntry name value entries).lookup other =
      if other = name then some value else entries.lookup other := by
  induction entries with
  | nil => rw [setEntry, lookup_cons_entry]
  | cons e entries ih =>
      obtain ⟨first, old⟩ := e
      rw [setEntry, lookup_cons_entry]
      by_cases hfirst : first = name
      · subst hfirst
        rw [if_pos rfl, lookup_cons_entry]
        by_cases h : other = first <;> simp [h]
      · rw [if_neg hfirst, lookup_cons_entry, ih]
        by_cases h : other = first
        · simp [h, hfirst]
        · simp [h]

theorem get?_insert (m : OrderedMap α) (name other : String) (value : α) :
    (m.insert name value).get? other = if other = name then some value else m.get? other := by
  rw [get?, insert, lookup_setEntry, get?]

theorem get?_erase (m : OrderedMap α) (name other : String) :
    (m.erase name).get? other = if other = name then none else m.get? other := by
  have hfilter : m.entries.filter (·.1 != name) =
      m.entries.filter fun e => !decide (e.1 = name) := by
    refine List.filter_congr fun e _ => ?_
    by_cases h : e.1 = name <;> simp [h]
  change (m.entries.filter (·.1 != name)).lookup other = _
  rw [hfilter, lookup_filter_ne, get?]

theorem lookup_map (f : α → β) (entries : List (String × α)) (name : String) :
    (entries.map fun (name, value) => (name, f value)).lookup name =
      (entries.lookup name).map f := by
  induction entries with
  | nil => rfl
  | cons e entries ih =>
      obtain ⟨first, old⟩ := e
      rw [List.map_cons, lookup_cons_entry, lookup_cons_entry, ih]
      by_cases h : name = first <;> simp [h]

theorem get?_map (f : α → β) (m : OrderedMap α) (name : String) :
    (m.map f).get? name = (m.get? name).map f :=
  lookup_map f m.entries name

theorem setEntry_setEntry (entries : List (String × α)) (name : String) (value old : α) :
    setEntry name value (setEntry name old entries) = setEntry name value entries := by
  induction entries with
  | nil => simp [setEntry]
  | cons e entries ih =>
      obtain ⟨first, there⟩ := e
      rw [setEntry, setEntry]
      by_cases h : first = name <;> simp [setEntry, h, ih]

theorem insert_insert (m : OrderedMap α) (name : String) (value old : α) :
    (m.insert name old).insert name value = m.insert name value :=
  OrderedMap.ext (setEntry_setEntry m.entries name value old)

theorem map_insert (f : α → β) (m : OrderedMap α) (name : String) (value : α) :
    (m.insert name value).map f = (m.map f).insert name (f value) := by
  refine OrderedMap.ext ?_
  change (setEntry name value m.entries).map _ = setEntry name (f value) (m.entries.map _)
  induction m.entries with
  | nil => rfl
  | cons e entries ih =>
      obtain ⟨first, old⟩ := e
      rw [setEntry, List.map_cons, setEntry]
      by_cases h : first = name <;> simp [h, ih]

/-! ## Maps of lists -/

theorem mem_foldl_insert {e : String × α} (m : OrderedMap α)
    (h : e ∈ (entries.foldl (fun m (e : String × α) => m.insert e.1 e.2) m).entries) :
    e ∈ m.entries ∨ e ∈ entries := by
  induction entries generalizing m with
  | nil => exact .inl h
  | cons first entries ih =>
      rcases ih _ h with hm | hm
      · rcases mem_setEntry hm with rfl | hm
        · exact .inr List.mem_cons_self
        · exact .inl hm
      · exact .inr (List.mem_cons_of_mem _ hm)

/-- A map made of a list holds nothing but what is in the list. -/
theorem mem_of_mem_ofList {e : String × α} (h : e ∈ (ofList entries).entries) : e ∈ entries :=
  (mem_foldl_insert empty h).resolve_left List.not_mem_nil

theorem entries_foldl_insert (m : OrderedMap α)
    (h : ((m.entries ++ entries).map Prod.fst).Nodup) :
    (entries.foldl (fun m (e : String × α) => m.insert e.1 e.2) m).entries =
      m.entries ++ entries := by
  induction entries generalizing m with
  | nil => exact (List.append_nil _).symm
  | cons e entries ih =>
      have hnew : e.1 ∉ m.entries.map Prod.fst := by
        intro hmem
        rw [List.map_append, List.nodup_append] at h
        exact h.2.2 e.1 hmem e.1 (by simp) rfl
      have hinsert : (m.insert e.1 e.2).entries = m.entries ++ [e] := setEntry_of_not_mem hnew
      have hsplit : m.entries ++ [e] ++ entries = m.entries ++ e :: entries := by simp
      rw [List.foldl_cons, ih _ (by rwa [hinsert, hsplit]), hinsert, hsplit]

/-- The names of a map that is made of a list are in the order of the list. -/
theorem names_ofList_sublist (entries : List (String × α)) :
    ((ofList entries).entries.map Prod.fst).Sublist (entries.map Prod.fst) := by
  have hfold : ∀ m : OrderedMap α, ∃ names, names.Sublist (entries.map Prod.fst) ∧
      (entries.foldl (fun m (e : String × α) => m.insert e.1 e.2) m).entries.map Prod.fst =
        m.entries.map Prod.fst ++ names := by
    induction entries with
    | nil => exact fun m => ⟨[], List.Sublist.refl [], (List.append_nil _).symm⟩
    | cons e entries ih =>
        intro m
        obtain ⟨names, hnames, hfold⟩ := ih (m.insert e.1 e.2)
        rw [List.foldl_cons, hfold]
        change ∃ _, _ ∧ (setEntry e.1 e.2 m.entries).map Prod.fst ++ names = _
        rw [names_setEntry]
        split
        · exact ⟨names, hnames.cons _, rfl⟩
        · exact ⟨e.1 :: names, hnames.cons_cons _, by simp⟩
  obtain ⟨names, hnames, hfold⟩ := hfold empty
  have heq : (ofList entries).entries.map Prod.fst = names := hfold
  rwa [heq]

/-- A map that is made of distinct names has just the entries that it is made of. -/
theorem entries_ofList (h : (entries.map Prod.fst).Nodup) : (ofList entries).entries = entries :=
  entries_foldl_insert empty (by simpa [empty] using h)

/-- A map is made again from its own entries. -/
@[simp] theorem ofList_entries (m : OrderedMap α) : ofList m.entries = m :=
  OrderedMap.ext (entries_ofList m.distinct)

/-! ## Entries in the order of their names -/

section
variable [BEq κ] [LawfulBEq κ] [DecidableEq κ]

/-- Under distinct names look-ups find exactly the entries. -/
theorem lookup_eq_some_of_mem {key : κ} {value : β} {entries : List (κ × β)}
    (hdistinct : (entries.map Prod.fst).Nodup) (h : (key, value) ∈ entries) :
    entries.lookup key = some value := by
  induction entries with
  | nil => cases h
  | cons e entries ih =>
      obtain ⟨first, old⟩ := e
      obtain ⟨hnew, hrest⟩ := List.nodup_cons.mp hdistinct
      rw [lookup_cons_entry]
      rcases List.mem_cons.mp h with heq | hmem
      · cases heq
        rw [if_pos rfl]
      · have hne : key ≠ first := by
          rintro rfl
          exact hnew (List.mem_map.mpr ⟨_, hmem, rfl⟩)
        rw [if_neg hne, ih hrest hmem]

theorem lookup_perm {key : κ} {entries others : List (κ × β)}
    (hdistinct : (entries.map Prod.fst).Nodup) (h : entries.Perm others) :
    entries.lookup key = others.lookup key := by
  have hothers : (others.map Prod.fst).Nodup := (h.map Prod.fst).nodup_iff.mp hdistinct
  refine Option.ext fun value => ⟨fun hvalue => ?_, fun hvalue => ?_⟩
  · exact lookup_eq_some_of_mem hothers (h.mem_iff.mp (mem_of_lookup hvalue))
  · exact lookup_eq_some_of_mem hdistinct (h.mem_iff.mpr (mem_of_lookup hvalue))

end

theorem perm_sorted (m : OrderedMap α) : m.sorted.Perm m.entries :=
  List.mergeSort_perm _ _

theorem nodup_sorted (m : OrderedMap α) : (m.sorted.map Prod.fst).Nodup :=
  (m.perm_sorted.map Prod.fst).nodup_iff.mpr m.distinct

theorem lookup_sorted (m : OrderedMap α) (name : String) : m.sorted.lookup name = m.get? name :=
  lookup_perm m.nodup_sorted m.perm_sorted

/-- Sorted entries have growing names. -/
theorem pairwise_sorted (m : OrderedMap α) : (m.sorted.map Prod.fst).Pairwise (· < ·) := by
  have hle : (m.sorted.map Prod.fst).Pairwise (· ≤ ·) := by
    rw [List.pairwise_map]
    have hsorted : m.sorted.Pairwise fun a b => decide (a.1 ≤ b.1) = true := by
      refine List.pairwise_mergeSort (fun a b c hab hbc => ?_) (fun a b => ?_) m.entries
      · exact decide_eq_true (String.le_trans (of_decide_eq_true hab) (of_decide_eq_true hbc))
      · simpa using String.le_total a.1 b.1
    exact hsorted.imp of_decide_eq_true
  refine (hle.and m.nodup_sorted).imp fun {a b} h => ?_
  exact String.not_le.mp fun hba => h.2 (String.le_antisymm h.1 hba)

/-- Maps in the order of their names are the same if they hold the same. -/
theorem eq_of_get?_eq {m n : OrderedMap α} (hm : m.sorted = m.entries)
    (hn : n.sorted = n.entries) (h : ∀ name, m.get? name = n.get? name) : m = n := by
  have hgrows : ∀ {m : OrderedMap α}, m.sorted = m.entries →
      m.entries.Pairwise fun a b => a.1 < b.1 := by
    intro m hm
    have hsorted := m.pairwise_sorted
    rwa [hm, List.pairwise_map] at hsorted
  have hnodup : ∀ m : OrderedMap α, m.entries.Nodup := fun m =>
    (List.pairwise_map.mp m.distinct).imp fun h heq => h (congrArg Prod.fst heq)
  have hmem : ∀ {m n : OrderedMap α}, (∀ name, m.get? name = n.get? name) →
      ∀ e ∈ m.entries, e ∈ n.entries := by
    intro m n h e he
    have hget := lookup_eq_some_of_mem m.distinct he
    exact mem_of_get? ((h e.1).symm.trans hget)
  have hperm : m.entries.Perm n.entries :=
    (List.perm_ext_iff_of_nodup (hnodup m) (hnodup n)).mpr fun e =>
      ⟨hmem h e, hmem (fun name => (h name).symm) e⟩
  refine OrderedMap.ext (hperm.eq_of_pairwise ?_ (hgrows hm) (hgrows hn))
  intro a b _ _ hab hba
  exact absurd (String.lt_trans hab hba) (String.lt_irrefl _)

/-- A map whose names grow is sorted already. -/
theorem sorted_of_pairwise {m : OrderedMap α}
    (h : m.entries.Pairwise fun a b => decide (a.1 ≤ b.1) = true) : m.sorted = m.entries :=
  List.mergeSort_of_pairwise h

end TodoIndex.OrderedMap
