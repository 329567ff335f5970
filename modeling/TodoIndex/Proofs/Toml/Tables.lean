import TodoIndex.Proofs.OrderedMap
import TodoIndex.Settings.Layers

/-! # Tables laid above each other

What a path of keys leads to in a table that lies above another one: what it leads to above, or
else below.  Two conditions are needed.  The table above has distinct keys, because of a repeated
key the last value is laid but the first one is found; and no value on the way is anything but a
table, because such a value hides whatever is below it.
-/

namespace TodoIndex.Toml

variable {below above value : Toml} {entries others : Entries} {key : String} {path : List String}

/-! ## Comparing values -/

mutual

/-- Whether two values are the same. -/
def same : Toml → Toml → Bool
  | .bool b, .bool c => b == c
  | .integer m, .integer n => m == n
  | .decimal, .decimal => true
  | .text s, .text t => s == t
  | .array items, .array others => sameItems items others
  | .table entries, .table others => sameEntries entries others
  | _, _ => false

def sameItems : List Toml → List Toml → Bool
  | [], [] => true
  | item :: items, other :: others => same item other && sameItems items others
  | _, _ => false

def sameEntries : List (String × Toml) → List (String × Toml) → Bool
  | [], [] => true
  | (key, value) :: entries, (name, other) :: others =>
      key == name && same value other && sameEntries entries others
  | _, _ => false

end

mutual

theorem same_iff : ∀ {a b : Toml}, same a b = true ↔ a = b
  | .bool _, b | .integer _, b | .decimal, b | .text _, b => by cases b <;> simp [same]
  | .array items, b => by
      cases b with
      | array others => simp [same, sameItems_iff]
      | _ => simp [same]
  | .table entries, b => by
      cases b with
      | table others => simp [same, sameEntries_iff]
      | _ => simp [same]

theorem sameItems_iff : ∀ {items others : List Toml},
    sameItems items others = true ↔ items = others
  | [], others => by cases others <;> simp [sameItems]
  | item :: items, others => by
      cases others with
      | nil => simp [sameItems]
      | cons other others => simp [sameItems, same_iff, sameItems_iff]

theorem sameEntries_iff : ∀ {entries others : List (String × Toml)},
    sameEntries entries others = true ↔ entries = others
  | [], others => by cases others <;> simp [sameEntries]
  | (key, value) :: entries, others => by
      cases others with
      | nil => simp [sameEntries]
      | cons other others =>
          obtain ⟨name, other⟩ := other
          simp [sameEntries, same_iff, sameEntries_iff, and_assoc]

end

instance : DecidableEq Toml := fun _ _ =>
  decidable_of_iff _ same_iff

/-! ## Distinct keys -/

def isTable : Toml → Bool
  | .table _ => true
  | _ => false

theorem eq_table_of_isTable (h : value.isTable = true) : ∃ entries, value = .table entries := by
  cases value with
  | table entries => exact ⟨entries, rfl⟩
  | _ => cases h

/-- A value whose tables, and the tables in these, have distinct keys. -/
inductive Distinct : Toml → Prop where
  | plain {value : Toml} : value.isTable = false → Distinct value
  | table {entries : Entries} : (entries.map Prod.fst).Nodup → (∀ e ∈ entries, Distinct e.2) →
      Distinct (.table entries)

theorem Distinct.nodup (h : Distinct (.table entries)) : (entries.map Prod.fst).Nodup := by
  cases h with
  | plain h => cases h
  | table h _ => exact h

theorem Distinct.of_mem (h : Distinct (.table entries)) {e : String × Toml} (he : e ∈ entries) :
    Distinct e.2 := by
  cases h with
  | plain h => cases h
  | table _ h => exact h e he

theorem Distinct.of_lookup (h : Distinct (.table entries)) (hvalue : entries.lookup key =
    some value) : Distinct value :=
  h.of_mem (OrderedMap.mem_of_lookup hvalue)

theorem distinct_nil : Distinct (.table []) :=
  .table List.nodup_nil fun _ h => nomatch h

theorem distinct_single (h : Distinct value) : Distinct (.table [(key, value)]) :=
  .table (by simp) fun e he => by rwa [List.mem_singleton.mp he]

theorem Distinct.setEntry (h : Distinct (.table entries)) (hvalue : Distinct value) :
    Distinct (.table (OrderedMap.setEntry key value entries)) := by
  refine .table (OrderedMap.nodup_setEntry key value h.nodup) fun e he => ?_
  rcases OrderedMap.mem_setEntry he with rfl | he
  · exact hvalue
  · exact h.of_mem he

/-! ## One value above another -/

theorem merge_of_not_table (h : above.isTable = false) : merge below above = above := by
  cases above with
  | table entries => cases h
  | _ => simp [merge]

@[simp] theorem merge_tables (entries others : Entries) :
    merge (.table entries) (.table others) = .table (mergeEntries entries others) := by
  simp [merge]

theorem merge_over_plain (h : below.isTable = false) : merge below (.table entries) =
    .table entries := by
  cases below with
  | table entries => cases h
  | _ => simp [merge]

theorem isTable_merge : (merge below above).isTable = above.isTable := by
  cases habove : above.isTable with
  | false => rw [merge_of_not_table habove, habove]
  | true =>
      obtain ⟨others, rfl⟩ := eq_table_of_isTable habove
      cases hbelow : below.isTable with
      | false => rw [merge_over_plain hbelow, habove]
      | true =>
          obtain ⟨entries, rfl⟩ := eq_table_of_isTable hbelow
          rw [merge_tables]
          rfl

/-- What is found where one layer lies above another one. -/
def laid : Option Toml → Option Toml → Option Toml
  | below?, none => below?
  | none, some above => some above
  | some below, some above => some (merge below above)

@[simp] theorem laid_none (below? : Option Toml) : laid below? none = below? := by
  cases below? <;> rfl

@[simp] theorem none_laid (above? : Option Toml) : laid none above? = above? := by
  cases above? <;> rfl

theorem laid_isSome (below? above? : Option Toml) :
    (laid below? above?).isSome = (above?.or below?).isSome := by
  cases below? <;> cases above? <;> rfl

/-- If a value that is no table is found, it is the upper one if there is one. -/
theorem laid_eq_or {below? above? : Option Toml}
    (h : ∀ value, laid below? above? = some value → value.isTable = false) :
    laid below? above? = above?.or below? := by
  cases above? with
  | none => rw [laid_none, Option.none_or]
  | some above =>
      cases below? with
      | none => rfl
      | some below =>
          have hplain := h _ rfl
          rw [isTable_merge] at hplain
          exact congrArg some (merge_of_not_table hplain)

theorem laid_laid_eq_or {below? between? above? : Option Toml}
    (h : ∀ value, laid (laid below? between?) above? = some value → value.isTable = false) :
    laid (laid below? between?) above? = (above?.or between?).or below? := by
  cases above? with
  | none =>
      rw [laid_none] at h ⊢
      rw [Option.none_or, laid_eq_or h]
  | some above => exact laid_eq_or h

/-! ## Tables -/

theorem mergeEntries_cons (below : Entries) (key : String) (value : Toml) (above : Entries) :
    mergeEntries below ((key, value) :: above) = mergeEntries
      (OrderedMap.setEntry key ((laid (below.lookup key) (some value)).getD value) below)
      above := by
  rw [mergeEntries]
  cases below.lookup key <;> rfl

theorem laid_some (below? : Option Toml) (above : Toml) :
    some ((laid below? (some above)).getD above) = laid below? (some above) := by
  cases below? <;> rfl

theorem lookup_mergeEntries (below : Entries) {above : Entries}
    (h : (above.map Prod.fst).Nodup) (key : String) :
    (mergeEntries below above).lookup key = laid (below.lookup key) (above.lookup key) := by
  induction above generalizing below with
  | nil => simp [mergeEntries]
  | cons e above ih =>
      obtain ⟨first, value⟩ := e
      obtain ⟨hnew, habove⟩ := List.nodup_cons.mp h
      rw [mergeEntries_cons, ih _ habove, OrderedMap.lookup_setEntry,
        OrderedMap.lookup_cons_entry]
      by_cases hkey : key = first
      · subst hkey
        have hnone : above.lookup key = none := OrderedMap.lookup_eq_none_iff_not_mem.mpr hnew
        rw [if_pos rfl, if_pos rfl, hnone, laid_none, laid_some]
      · rw [if_neg hkey, if_neg hkey]

theorem lookup_mergeEntries_tables {below above : Entries} (h : (above.map Prod.fst).Nodup)
    (hbelow : below.lookup key = some (.table entries))
    (habove : above.lookup key = some (.table others)) :
    (mergeEntries below above).lookup key = some (.table (mergeEntries entries others)) := by
  rw [lookup_mergeEntries below h, hbelow, habove, laid, merge_tables]

theorem nodup_mergeEntries {below above : Entries} (h : (below.map Prod.fst).Nodup) :
    ((mergeEntries below above).map Prod.fst).Nodup := by
  induction above generalizing below with
  | nil => simpa [mergeEntries] using h
  | cons e above ih =>
      obtain ⟨first, value⟩ := e
      rw [mergeEntries_cons]
      exact ih (OrderedMap.nodup_setEntry _ _ h)

theorem Distinct.merge {above below : Toml} (habove : Distinct above) (hbelow : Distinct below) :
    Distinct (merge below above) := by
  induction habove generalizing below with
  | plain h =>
      rw [merge_of_not_table h]
      exact .plain h
  | @table others hnodup hall ih =>
      cases hbelow with
      | plain h =>
          rw [merge_over_plain h]
          exact .table hnodup hall
      | @table entries hentries hvalues =>
          rw [merge_tables]
          refine .table (nodup_mergeEntries hentries) fun e he => ?_
          obtain ⟨key, value⟩ := e
          have hlookup := OrderedMap.lookup_eq_some_of_mem (nodup_mergeEntries hentries) he
          rw [lookup_mergeEntries entries hnodup] at hlookup
          cases hold : entries.lookup key <;> cases hnew : others.lookup key <;>
            rw [hold, hnew] at hlookup <;> cases hlookup
          · exact hall _ (OrderedMap.mem_of_lookup hnew)
          · exact hvalues _ (OrderedMap.mem_of_lookup hold)
          · exact ih _ (OrderedMap.mem_of_lookup hnew) (hvalues _ (OrderedMap.mem_of_lookup hold))

/-! ## Paths -/

@[simp] theorem at?_nil (value : Toml) : at? [] value = some value := by
  simp [at?]

@[simp] theorem at?_table (key : String) (path : List String) (entries : Entries) :
    at? (key :: path) (.table entries) = (entries.lookup key).bind (at? path) := by
  simp [at?]

/-- A path meets no value but tables before its end. -/
def Leads : List String → Toml → Prop
  | [], _ => True
  | key :: path, .table entries => ∀ value, entries.lookup key = some value → Leads path value
  | _ :: _, _ => False

instance decidableLeads : (path : List String) → (value : Toml) → Decidable (Leads path value)
  | [], _ => isTrue trivial
  | key :: path, .table entries =>
      have := decidableLeads path
      inferInstanceAs (Decidable (∀ value ∈ entries.lookup key, Leads path value))
  | _ :: _, .bool _ | _ :: _, .integer _ | _ :: _, .decimal | _ :: _, .text _ | _ :: _, .array _ =>
      isFalse id

theorem Leads.eq_table (h : Leads (key :: path) value) : ∃ entries, value = .table entries := by
  cases value with
  | table entries => exact ⟨entries, rfl⟩
  | _ => exact h.elim

theorem Leads.of_shorter {lead : List String} (h : Leads path value) (hlead : lead <+: path) :
    Leads lead value := by
  induction lead generalizing path value with
  | nil => trivial
  | cons key lead ih =>
      obtain ⟨rest, rfl⟩ := hlead
      obtain ⟨entries, rfl⟩ := Leads.eq_table h
      exact fun found hfound => ih (h found hfound) ⟨rest, rfl⟩

/-- **Where no other value is on the way**, a path leads to what is laid of its ends. -/
theorem at?_merge (hdistinct : Distinct above) (hbelow : Leads path below)
    (habove : Leads path above) :
    at? path (merge below above) = laid (at? path below) (at? path above) := by
  induction path generalizing below above with
  | nil => simp [laid]
  | cons key path ih =>
      obtain ⟨entries, rfl⟩ := hbelow.eq_table
      obtain ⟨others, rfl⟩ := habove.eq_table
      rw [merge_tables, at?_table, at?_table, at?_table,
        lookup_mergeEntries entries hdistinct.nodup]
      cases hold : entries.lookup key <;> cases hnew : others.lookup key
      · rfl
      · simp
      · simp
      · exact ih (hdistinct.of_lookup hnew) (hbelow _ hold) (habove _ hnew)

theorem Leads.merge (hdistinct : Distinct above) (hbelow : Leads path below)
    (habove : Leads path above) : Leads path (merge below above) := by
  induction path generalizing below above with
  | nil => trivial
  | cons key path ih =>
      obtain ⟨entries, rfl⟩ := hbelow.eq_table
      obtain ⟨others, rfl⟩ := habove.eq_table
      rw [merge_tables]
      intro value hvalue
      rw [lookup_mergeEntries entries hdistinct.nodup] at hvalue
      cases hold : entries.lookup key <;> cases hnew : others.lookup key <;>
        rw [hold, hnew] at hvalue <;> cases hvalue
      · exact habove _ hnew
      · exact hbelow _ hold
      · exact ih (hdistinct.of_lookup hnew) (hbelow _ hold) (habove _ hnew)

/-! ## Many layers -/

variable {layers : List Toml}

theorem Distinct.foldl_merge (hbelow : Distinct below)
    (hlayers : ∀ layer ∈ layers, Distinct layer) :
    Distinct (layers.foldl Toml.merge below) := by
  induction layers generalizing below with
  | nil => exact hbelow
  | cons layer layers ih =>
      obtain ⟨hlayer, hlayers⟩ := List.forall_mem_cons.mp hlayers
      exact ih (hlayer.merge hbelow) hlayers

theorem Leads.foldl_merge (hbelow : Leads path below)
    (hlayers : ∀ layer ∈ layers, Distinct layer ∧ Leads path layer) :
    Leads path (layers.foldl Toml.merge below) := by
  induction layers generalizing below with
  | nil => exact hbelow
  | cons layer layers ih =>
      obtain ⟨⟨hdistinct, hlayer⟩, hlayers⟩ := List.forall_mem_cons.mp hlayers
      exact ih (hbelow.merge hdistinct hlayer) hlayers

theorem at?_foldl_merge (hbelow : Leads path below)
    (hlayers : ∀ layer ∈ layers, Distinct layer ∧ Leads path layer) :
    at? path (layers.foldl merge below) = (layers.map (at? path)).foldl laid (at? path below) := by
  induction layers generalizing below with
  | nil => rfl
  | cons layer layers ih =>
      obtain ⟨⟨hdistinct, hlayer⟩, hlayers⟩ := List.forall_mem_cons.mp hlayers
      rw [List.foldl_cons, ih (hbelow.merge hdistinct hlayer) hlayers,
        at?_merge hdistinct hbelow hlayer, List.map_cons, List.foldl_cons]

/-- Of many layers the last one counts that has a value, if that is no table in the end. -/
theorem foldl_laid {found : List (Option Toml)} {below? : Option Toml}
    (h : ∀ value, found.foldl laid below? = some value → value.isTable = false) :
    found.foldl laid below? = (found.reverse.findSome? id).or below? := by
  induction found generalizing below? with
  | nil => rfl
  | cons first found ih =>
      have hrest := ih h
      rw [List.foldl_cons, hrest, List.reverse_cons, List.findSome?_append, Option.or_assoc]
      cases hlast : found.reverse.findSome? id with
      | some value => rfl
      | none =>
          rw [hlast, Option.none_or] at hrest
          rw [List.foldl_cons, hrest] at h
          rw [Option.none_or, Option.none_or, laid_eq_or h]
          cases first <;> rfl

theorem foldl_laid_isSome (found : List (Option Toml)) (below? : Option Toml) :
    (found.foldl laid below?).isSome = ((found.reverse.findSome? id).or below?).isSome := by
  induction found generalizing below? with
  | nil => rfl
  | cons first found ih =>
      rw [List.foldl_cons, ih, List.reverse_cons, List.findSome?_append, Option.or_assoc]
      cases found.reverse.findSome? id with
      | some value => rfl
      | none =>
          rw [Option.none_or, Option.none_or, laid_isSome]
          cases first <;> rfl

end TodoIndex.Toml
