import Mathlib.Data.List.Forall2
import TodoIndex.Proofs.Toml.Tables
import TodoIndex.Settings.Decoding

/-! # Groups of settings from tables

A group is read field by field in the order of the keys.  Whatever that order is, each setting
is what is read under its own key, or else what it was; and the group is read if every field is.
-/

namespace TodoIndex.Settings

variable {σ α β : Type} {key other : String} {value : Toml} {entries : Toml.Entries}

/-! ## Readings that succeed -/

theorem bind_eq_ok {ε : Type} {x : Except ε α} {f : α → Except ε β} {b : β} :
    (x >>= f) = .ok b ↔ ∃ a, x = .ok a ∧ f a = .ok b := by
  cases x with
  | error e => exact ⟨fun h => (nomatch h), fun ⟨_, h, _⟩ => nomatch h⟩
  | ok a => exact ⟨fun h => ⟨a, rfl, h⟩, fun ⟨_, ha, h⟩ => by cases ha; exact h⟩

theorem map_eq_ok {ε : Type} {x : Except ε α} {f : α → β} {b : β} :
    x.map f = .ok b ↔ ∃ a, x = .ok a ∧ f a = b := by
  cases x with
  | error e => exact ⟨fun h => (nomatch h), fun ⟨_, h, _⟩ => nomatch h⟩
  | ok a => exact ⟨fun h => ⟨a, rfl, by cases h; rfl⟩, fun ⟨_, ha, h⟩ => by cases ha; cases h; rfl⟩

@[simp] theorem within_eq_ok {x : Except SettingsError α} {a : α} :
    within key x = .ok a ↔ x = .ok a := by
  cases x <;> simp [within]

theorem mapM_eq_ok {ε : Type} {f : α → Except ε β} {l : List α} {bs : List β} :
    l.mapM f = .ok bs ↔ List.Forall₂ (fun a b => f a = .ok b) l bs := by
  induction l generalizing bs with
  | nil =>
      rw [List.mapM_nil, List.forall₂_nil_left_iff]
      exact ⟨fun h => by cases h; rfl, fun h => by rw [h]; rfl⟩
  | cons a l ih =>
      rw [List.mapM_cons, bind_eq_ok]
      constructor
      · rintro ⟨b, hb, hrest⟩
        obtain ⟨rest, hmap, heq⟩ := bind_eq_ok.mp hrest
        cases heq
        exact .cons hb (ih.mp hmap)
      · rintro (_ | ⟨hb, hrest⟩)
        exact ⟨_, hb, bind_eq_ok.mpr ⟨_, ih.mpr hrest, rfl⟩⟩

/-! ## Groups -/

theorem perm_sortEntries (entries : Toml.Entries) : (sortEntries entries).Perm entries :=
  List.mergeSort_perm _ _

theorem nodup_sortEntries (h : (entries.map Prod.fst).Nodup) :
    ((sortEntries entries).map Prod.fst).Nodup :=
  ((perm_sortEntries entries).map Prod.fst).nodup_iff.mpr h

theorem lookup_sortEntries (h : (entries.map Prod.fst).Nodup) (key : String) :
    (sortEntries entries).lookup key = entries.lookup key :=
  OrderedMap.lookup_perm (nodup_sortEntries h) (perm_sortEntries entries)

/-- What a group becomes under the entries of a table, in their order. -/
def settersOf (fields : List (Field σ)) (entries : Toml.Entries) :
    List (String × (σ → Except SettingsError σ)) :=
  entries.filterMap fun (key, value) => (fields.lookup key).map fun set => (key, set value)

theorem settersOf_cons_none {fields : List (Field σ)} (h : fields.lookup key = none) :
    settersOf fields ((key, value) :: entries) = settersOf fields entries :=
  List.filterMap_cons_none (by simp [h])

theorem settersOf_cons_some {fields : List (Field σ)} {set : Toml → σ → Except SettingsError σ}
    (h : fields.lookup key = some set) :
    settersOf fields ((key, value) :: entries) = (key, set value) :: settersOf fields entries :=
  List.filterMap_cons_some (by simp [h])

theorem group_table (fields : List (Field σ)) (start : σ) (entries : Toml.Entries) :
    group fields start (.table entries) =
      setFields (settersOf fields (sortEntries entries)) start :=
  rfl

theorem setFields_cons {set : σ → Except SettingsError σ}
    {setters : List (String × (σ → Except SettingsError σ))} {start result : σ} :
    setFields ((key, set) :: setters) start = .ok result ↔
      ∃ next, set start = .ok next ∧ setFields setters next = .ok result := by
  rw [setFields, List.foldlM_cons, bind_eq_ok]
  simp only [within_eq_ok]
  rfl

@[simp] theorem field_fst (key : String) (decode : Decoder α) (put : α → σ → σ) :
    (field key decode put).1 = key :=
  rfl

/-- A field leaves the setting `get` as it is. -/
def Keeps (get : σ → β) (f : Field σ) : Prop :=
  ∀ value group next, f.2 value group = .ok next → get next = get group

@[simp] theorem keeps_field {get : σ → β} {decode : Decoder α} {put : α → σ → σ} :
    Keeps get (field key decode put) ↔
      ∀ value a, decode value = .ok a → ∀ group, get (put a group) = get group := by
  simp only [Keeps, field, map_eq_ok]
  constructor
  · intro h value a ha group
    exact h value group _ ⟨a, ha, rfl⟩
  · rintro h value group _ ⟨a, ha, rfl⟩
    exact h value a ha group

/-- The setting `get` of a group is read under `key` and no other field changes it. -/
structure Reads (fields : List (Field σ)) (key : String) (decode : Decoder α) (get : σ → α) :
    Prop where
  distinct : (fields.map Prod.fst).Nodup
  sets : ∃ put, field key decode put ∈ fields ∧ ∀ a group, get (put a group) = a
  keeps : ∀ f ∈ fields, f.1 ≠ key → Keeps get f

/-- What a setting becomes: what is read under its key, or what it was. -/
def Becomes (decode : Decoder α) (old : α) : Option Toml → α → Prop
  | none, new => new = old
  | some value, new => decode value = .ok new

variable {fields : List (Field σ)} {decode : Decoder α} {get : σ → α} {start result : σ}

theorem Reads.setFields (hreads : Reads fields key decode get)
    (hnodup : (entries.map Prod.fst).Nodup)
    (h : setFields (settersOf fields entries) start = .ok result) :
    Becomes decode (get start) (entries.lookup key) (get result) := by
  induction entries generalizing start with
  | nil =>
      cases h
      rfl
  | cons e entries ih =>
      obtain ⟨first, value⟩ := e
      obtain ⟨hnew, hrest⟩ := List.nodup_cons.mp hnodup
      rw [OrderedMap.lookup_cons_entry]
      by_cases hkey : key = first
      · subst hkey
        obtain ⟨put, hmem, hput⟩ := hreads.sets
        have hfield := OrderedMap.lookup_eq_some_of_mem hreads.distinct hmem
        have hnone : entries.lookup key = none := OrderedMap.lookup_eq_none_iff_not_mem.mpr hnew
        rw [settersOf_cons_some hfield, setFields_cons] at h
        obtain ⟨next, hset, h⟩ := h
        obtain ⟨a, ha, rfl⟩ := map_eq_ok.mp hset
        have hlater := ih hrest h
        rw [hnone, Becomes, hput] at hlater
        rw [if_pos rfl, hlater]
        exact ha
      · rw [if_neg hkey]
        cases hfirst : fields.lookup first with
        | none =>
            rw [settersOf_cons_none hfirst] at h
            exact ih hrest h
        | some set =>
            rw [settersOf_cons_some hfirst, setFields_cons] at h
            obtain ⟨next, hset, h⟩ := h
            have hmem := OrderedMap.mem_of_lookup hfirst
            have hkeeps := hreads.keeps _ hmem (Ne.symm hkey) _ _ _ hset
            rw [← hkeeps]
            exact ih hrest h

/-- **Each setting of a group** is what is read under its key, or what it was. -/
theorem Reads.group (hreads : Reads fields key decode get)
    (hnodup : (entries.map Prod.fst).Nodup)
    (h : group fields start (.table entries) = .ok result) :
    Becomes decode (get start) (entries.lookup key) (get result) := by
  rw [group_table] at h
  have hsorted := hreads.setFields (nodup_sortEntries hnodup) h
  rwa [lookup_sortEntries hnodup] at hsorted

/-- A field can be read from a value, whatever the group is. -/
def Takes (f : Field σ) (value : Toml) : Prop :=
  ∀ group, ∃ next, f.2 value group = .ok next

theorem takes_field {put : α → σ → σ} {a : α} (h : decode value = .ok a) :
    Takes (field key decode put) value :=
  fun group => ⟨put a group, map_eq_ok.mpr ⟨a, h, rfl⟩⟩

theorem exists_setFields (h : ∀ e ∈ entries, ∀ set, fields.lookup e.1 = some set →
      Takes (e.1, set) e.2) (start : σ) :
    ∃ result, setFields (settersOf fields entries) start = .ok result := by
  induction entries generalizing start with
  | nil => exact ⟨start, rfl⟩
  | cons e entries ih =>
      obtain ⟨first, value⟩ := e
      obtain ⟨hfirst, hrest⟩ := List.forall_mem_cons.mp h
      cases hset : fields.lookup first with
      | none =>
          rw [settersOf_cons_none hset]
          exact ih hrest start
      | some set =>
          obtain ⟨next, hnext⟩ := hfirst set hset start
          obtain ⟨result, hresult⟩ := ih hrest next
          refine ⟨result, ?_⟩
          rw [settersOf_cons_some hset, setFields_cons]
          exact ⟨next, hnext, hresult⟩

/-- A group is read if every field is that the table has. -/
theorem exists_group (hnodup : (entries.map Prod.fst).Nodup)
    (h : ∀ f ∈ fields, ∀ value, entries.lookup f.1 = some value → Takes f value) (start : σ) :
    ∃ result, group fields start (.table entries) = .ok result := by
  refine exists_setFields (fun e he set hset => ?_) start
  have hmem := (perm_sortEntries entries).mem_iff.mp he
  exact h _ (OrderedMap.mem_of_lookup hset) e.2 (OrderedMap.lookup_eq_some_of_mem hnodup hmem)

/-! ## Maps -/

theorem mapOf_table (decode : Decoder α) (entries : Toml.Entries) {m : OrderedMap α} :
    mapOf decode (.table entries) = .ok m ↔ ∃ decoded,
      List.Forall₂ (fun (e : String × Toml) (d : String × α) => d.1 = e.1 ∧ decode e.2 = .ok d.2)
        (sortEntries entries) decoded ∧ .ofList decoded = m := by
  have hentry : ∀ (e : String × Toml) (d : String × α),
      within e.1 ((decode e.2).map fun a => (e.1, a)) = .ok d ↔
        d.1 = e.1 ∧ decode e.2 = .ok d.2 := by
    intro e d
    rw [within_eq_ok, map_eq_ok]
    constructor
    · rintro ⟨a, ha, rfl⟩
      exact ⟨rfl, ha⟩
    · rintro ⟨hkey, ha⟩
      exact ⟨d.2, ha, by rw [← hkey]⟩
  unfold mapOf
  rw [bind_eq_ok]
  constructor
  · rintro ⟨decoded, hdecoded, hm⟩
    cases hm
    exact ⟨decoded, (mapM_eq_ok.mp hdecoded).imp fun e d h => (hentry e d).mp h, rfl⟩
  · rintro ⟨decoded, hdecoded, rfl⟩
    exact ⟨decoded, mapM_eq_ok.mpr (hdecoded.imp fun e d h => (hentry e d).mpr h), rfl⟩

theorem lookup_decoded {decoded : List (String × α)}
    (h : List.Forall₂ (fun (e : String × Toml) (d : String × α) => d.1 = e.1 ∧
      decode e.2 = .ok d.2) entries decoded) (key : String) :
    match entries.lookup key with
    | none => decoded.lookup key = none
    | some value => ∃ a, decode value = .ok a ∧ decoded.lookup key = some a := by
  induction h with
  | nil => rfl
  | @cons e d entries decoded hentry _ ih =>
      obtain ⟨first, value⟩ := e
      obtain ⟨second, a⟩ := d
      obtain ⟨hkey, ha⟩ := hentry
      cases hkey
      rw [OrderedMap.lookup_cons_entry, OrderedMap.lookup_cons_entry]
      by_cases hkey : key = first
      · rw [if_pos hkey, if_pos hkey]
        exact ⟨a, ha, rfl⟩
      · rw [if_neg hkey, if_neg hkey]
        exact ih

theorem keys_decoded {decoded : List (String × α)}
    (h : List.Forall₂ (fun (e : String × Toml) (d : String × α) => d.1 = e.1 ∧
      decode e.2 = .ok d.2) entries decoded) : decoded.map Prod.fst = entries.map Prod.fst := by
  induction h with
  | nil => rfl
  | cons hentry _ ih => rw [List.map_cons, List.map_cons, ih, hentry.1]

theorem pairwise_sortEntries (entries : Toml.Entries) :
    ((sortEntries entries).map Prod.fst).Pairwise fun a b => decide (a ≤ b) = true := by
  rw [List.pairwise_map]
  refine List.pairwise_mergeSort (fun a b c hab hbc => ?_) (fun a b => ?_) entries
  · exact decide_eq_true (String.le_trans (of_decide_eq_true hab) (of_decide_eq_true hbc))
  · simpa using String.le_total a.1 b.1

variable {m : OrderedMap α}

/-- **A map is read value by value**: it holds what is read under each key of the table. -/
theorem get?_of_mapOf (hnodup : (entries.map Prod.fst).Nodup)
    (h : mapOf decode (.table entries) = .ok m) (key : String) :
    match entries.lookup key with
    | none => m.get? key = none
    | some value => ∃ a, decode value = .ok a ∧ m.get? key = some a := by
  obtain ⟨decoded, hdecoded, rfl⟩ := (mapOf_table decode entries).mp h
  have hkeys : (decoded.map Prod.fst).Nodup := by
    rw [keys_decoded hdecoded]
    exact nodup_sortEntries hnodup
  have hlookup := lookup_decoded hdecoded key
  rw [lookup_sortEntries hnodup] at hlookup
  rwa [OrderedMap.get?, OrderedMap.entries_ofList hkeys]

/-- A map that was read is in the order of its names. -/
theorem sorted_of_mapOf (h : mapOf decode value = .ok m) : m.sorted = m.entries := by
  cases value with
  | table entries =>
      obtain ⟨decoded, hdecoded, rfl⟩ := (mapOf_table decode entries).mp h
      have hsorted := pairwise_sortEntries entries
      rw [← keys_decoded hdecoded] at hsorted
      have hnames := hsorted.sublist (OrderedMap.names_ofList_sublist decoded)
      exact OrderedMap.sorted_of_pairwise (List.pairwise_map.mp hnames)
  | _ => cases h

theorem exists_mapOf (h : ∀ e ∈ entries, ∃ a, decode e.2 = .ok a) :
    ∃ m, mapOf decode (.table entries) = .ok m := by
  have hdecoded : ∀ {entries : Toml.Entries}, (∀ e ∈ entries, ∃ a, decode e.2 = .ok a) →
      ∃ decoded : List (String × α), List.Forall₂ (fun e d => d.1 = e.1 ∧ decode e.2 = .ok d.2)
        entries decoded := by
    intro entries h
    induction entries with
    | nil => exact ⟨[], .nil⟩
    | cons e entries ih =>
        obtain ⟨⟨a, ha⟩, hrest⟩ := List.forall_mem_cons.mp h
        obtain ⟨decoded, hdecoded⟩ := ih hrest
        exact ⟨(e.1, a) :: decoded, .cons ⟨rfl, ha⟩ hdecoded⟩
  obtain ⟨decoded, hsorted⟩ :=
    hdecoded fun e he => h e ((perm_sortEntries entries).mem_iff.mp he)
  exact ⟨_, (mapOf_table decode entries).mpr ⟨decoded, hsorted, rfl⟩⟩

/-! ## Values -/

/-- What is read was written in one way only. -/
def Exact (decode : Decoder α) (encode : α → Toml) : Prop :=
  ∀ value a, decode value = .ok a → value = encode a

theorem exact_textOf : Exact textOf .text := by
  intro value s h
  cases value with
  | text t =>
      cases h
      rfl
  | _ => cases h

theorem exact_truthOf : Exact truthOf .bool := by
  intro value b h
  cases value with
  | bool c =>
      cases h
      rfl
  | _ => cases h

theorem exact_naturalOf (bits : Nat) : Exact (naturalOf bits) fun n => .integer n := by
  intro value n h
  cases value with
  | integer i =>
      simp only [naturalOf] at h
      split at h
      · rename_i hrange
        simp only [Bool.and_eq_true, decide_eq_true_eq] at hrange
        cases h
        exact congrArg Toml.integer (Int.toNat_of_nonneg hrange.1).symm
      · cases h
  | _ => cases h

theorem naturalOf_natCast {bits n : Nat} :
    naturalOf bits (.integer n) = .ok n ↔ n < Nat.pow 2 bits := by
  have hcast : ((Nat.pow 2 bits : Nat) : Int) = Int.pow 2 bits := Int.natCast_pow 2 bits
  have hpow : (n : Int) < Int.pow 2 bits ↔ n < Nat.pow 2 bits := by rw [← hcast, Int.ofNat_lt]
  simp only [naturalOf]
  split
  · rename_i hrange
    simp only [Bool.and_eq_true, decide_eq_true_eq, hpow] at hrange
    exact ⟨fun _ => hrange.2, fun _ => rfl⟩
  · rename_i hrange
    simp only [Bool.and_eq_true, decide_eq_true_eq, hpow, not_and] at hrange
    exact ⟨fun h => (nomatch h), fun h => absurd h (hrange (Int.natCast_nonneg n))⟩

theorem placed_snd (items : List Toml) : (placed items).map Prod.snd = items := by
  rw [placed, List.map_map]
  exact List.zipIdx_map_fst 0 items

theorem exact_listOf {encode : α → Toml} (hexact : Exact decode encode) :
    Exact (listOf decode) fun as => .array (as.map encode) := by
  intro value as h
  cases value with
  | array items =>
      have hmap : ∀ {entries : Toml.Entries} {as : List α},
          List.Forall₂ (fun e a => within e.1 (decode e.2) = .ok a) entries as →
            entries.map Prod.snd = as.map encode := by
        intro entries as h
        induction h with
        | nil => rfl
        | cons hentry _ ih =>
            rw [List.map_cons, List.map_cons, ih, hexact _ _ (within_eq_ok.mp hentry)]
      rw [← placed_snd items, hmap (mapM_eq_ok.mp h)]
  | _ => cases h

theorem listOf_map {encode : α → Toml} {as : List α} (h : ∀ a ∈ as, decode (encode a) = .ok a) :
    listOf decode (.array (as.map encode)) = .ok as := by
  refine mapM_eq_ok.mpr ?_
  have hplaced : ∀ {entries : Toml.Entries} {as : List α}, entries.map Prod.snd = as.map encode →
      (∀ a ∈ as, decode (encode a) = .ok a) →
      List.Forall₂ (fun e a => within e.1 (decode e.2) = .ok a) entries as := by
    intro entries as heq h
    induction entries generalizing as with
    | nil =>
        obtain rfl := List.map_eq_nil_iff.mp heq.symm
        exact .nil
    | cons e entries ih =>
        obtain ⟨a, rest, rfl, ha, hrest⟩ := List.map_eq_cons_iff.mp heq.symm
        obtain ⟨hfirst, hlater⟩ := List.forall_mem_cons.mp h
        exact .cons (by rw [within_eq_ok, ← ha, hfirst]) (ih hrest.symm hlater)
  exact hplaced (placed_snd _) h

end TodoIndex.Settings
