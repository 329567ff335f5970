/-!
# Ordered maps

Maps from names to values that keep the order in which names came: a new name goes last, a
name that gets another value keeps its place, and a name that is taken away leaves no gap.
-/

namespace TodoIndex

/-- Values under distinct names, in the order of their arrival. -/
structure OrderedMap (α : Type) where
  entries : List (String × α)
  distinct : (entries.map Prod.fst).Nodup := by simp

namespace OrderedMap

variable {α : Type}

instance : Inhabited (OrderedMap α) where
  default := ⟨[], List.nodup_nil⟩

instance [BEq α] : BEq (OrderedMap α) where
  beq m n := m.entries == n.entries

@[ext] theorem ext {m n : OrderedMap α} (h : m.entries = n.entries) : m = n := by
  cases m; cases n; cases h; rfl

def empty : OrderedMap α :=
  ⟨[], List.nodup_nil⟩

def names (m : OrderedMap α) : List String :=
  m.entries.map Prod.fst

def values (m : OrderedMap α) : List α :=
  m.entries.map Prod.snd

def get? (m : OrderedMap α) (name : String) : Option α :=
  m.entries.lookup name

def contains (m : OrderedMap α) (name : String) : Bool :=
  m.names.contains name

def isEmpty (m : OrderedMap α) : Bool :=
  m.entries.isEmpty

def setEntry (name : String) (value : α) : List (String × α) -> List (String × α)
  | [] => [(name, value)]
  | (other, old) :: rest =>
      if other = name then (name, value) :: rest else (other, old) :: setEntry name value rest

theorem names_setEntry (name : String) (value : α) (entries : List (String × α)) :
    (setEntry name value entries).map Prod.fst =
      if name ∈ entries.map Prod.fst then entries.map Prod.fst
      else entries.map Prod.fst ++ [name] := by
  induction entries with
  | nil => rfl
  | cons e entries ih =>
      obtain ⟨other, old⟩ := e
      by_cases h : other = name
      · simp [setEntry, h]
      · have h' : ¬ name = other := fun e => h e.symm
        by_cases hmem : name ∈ entries.map Prod.fst <;>
          simp [setEntry, h, h', ih, hmem]

theorem nodup_setEntry {entries : List (String × α)} (name : String) (value : α)
    (h : (entries.map Prod.fst).Nodup) : ((setEntry name value entries).map Prod.fst).Nodup := by
  rw [names_setEntry]
  split
  · exact h
  · rename_i hmem
    refine List.nodup_append.mpr ⟨h, by simp, ?_⟩
    intro a ha b hb
    simp only [List.mem_singleton] at hb
    exact fun e => hmem (by rw [← hb, ← e]; exact ha)

def insert (m : OrderedMap α) (name : String) (value : α) : OrderedMap α :=
  ⟨setEntry name value m.entries, nodup_setEntry name value m.distinct⟩

def erase (m : OrderedMap α) (name : String) : OrderedMap α :=
  ⟨m.entries.filter (·.1 != name),
    m.distinct.sublist (List.filter_sublist.map Prod.fst)⟩

/-- Give a name a value, and hand back the value that it had. -/
def exchangeEntry (name : String) (value : α) :
    List (String × α) -> Option α × List (String × α)
  | [] => (none, [(name, value)])
  | (other, old) :: rest =>
      if other = name then (some old, (name, value) :: rest)
      else
        let (previous, rest) := exchangeEntry name value rest
        (previous, (other, old) :: rest)

/-- Take a name away, and hand back the value that it had. -/
def takeEntry (name : String) : List (String × α) -> Option α × List (String × α)
  | [] => (none, [])
  | (other, old) :: rest =>
      if other = name then (some old, rest)
      else
        let (previous, rest) := takeEntry name rest
        (previous, (other, old) :: rest)

theorem exchangeEntry_eq (name : String) (value : α) (entries : List (String × α)) :
    exchangeEntry name value entries = (entries.lookup name, setEntry name value entries) := by
  induction entries with
  | nil => rfl
  | cons e entries ih =>
      obtain ⟨other, old⟩ := e
      by_cases h : other = name
      · subst h
        simp [exchangeEntry, setEntry]
      · have hlookup : ((other, old) :: entries).lookup name = entries.lookup name := by
          rw [List.lookup_cons, beq_eq_false_iff_ne.mpr (Ne.symm h)]
        rw [exchangeEntry, setEntry, if_neg h, if_neg h, ih, hlookup]

/-- Under distinct names nothing else is taken away. -/
theorem takeEntry_eq {entries : List (String × α)} (name : String)
    (h : (entries.map Prod.fst).Nodup) :
    takeEntry name entries = (entries.lookup name, entries.filter (·.1 != name)) := by
  induction entries with
  | nil => rfl
  | cons e entries ih =>
      obtain ⟨other, old⟩ := e
      obtain ⟨hnew, hrest⟩ := List.nodup_cons.mp h
      by_cases hother : other = name
      · subst hother
        have hkept : entries.filter (·.1 != other) = entries := by
          refine List.filter_eq_self.mpr fun e he => bne_iff_ne.mpr fun heq => hnew ?_
          exact List.mem_map.mpr ⟨e, he, heq⟩
        simp [takeEntry, hkept]
      · have hlookup : ((other, old) :: entries).lookup name = entries.lookup name := by
          rw [List.lookup_cons, beq_eq_false_iff_ne.mpr (Ne.symm hother)]
        rw [takeEntry, if_neg hother, ih hrest, hlookup,
          List.filter_cons_of_pos (by simpa using hother)]

/-- `insert` that hands back the value that the name had. -/
def exchange (m : OrderedMap α) (name : String) (value : α) : Option α × OrderedMap α :=
  ((exchangeEntry name value m.entries).1, ⟨(exchangeEntry name value m.entries).2, by
    rw [exchangeEntry_eq]
    exact nodup_setEntry name value m.distinct⟩)

/-- `erase` that hands back the value that the name had. -/
def take (m : OrderedMap α) (name : String) : Option α × OrderedMap α :=
  ((takeEntry name m.entries).1, ⟨(takeEntry name m.entries).2, by
    rw [takeEntry_eq name m.distinct]
    exact (m.erase name).distinct⟩)

theorem exchange_eq (m : OrderedMap α) (name : String) (value : α) :
    m.exchange name value = (m.get? name, m.insert name value) := by
  have h := exchangeEntry_eq name value m.entries
  exact Prod.ext (congrArg (·.1) h :) (ext (congrArg (·.2) h :))

theorem take_eq (m : OrderedMap α) (name : String) :
    m.take name = (m.get? name, m.erase name) := by
  have h := takeEntry_eq name m.distinct
  exact Prod.ext (congrArg (·.1) h :) (ext (congrArg (·.2) h :))

/-- The map of a list in which later values replace earlier ones of the same name. -/
def ofList (entries : List (String × α)) : OrderedMap α :=
  entries.foldl (fun m (name, value) => m.insert name value) empty

def sorted (m : OrderedMap α) : List (String × α) :=
  m.entries.mergeSort fun a b => decide (a.1 ≤ b.1)

/-- Change every value. -/
def map {β : Type} (f : α -> β) (m : OrderedMap α) : OrderedMap β :=
  ⟨m.entries.map fun (name, value) => (name, f value), by
    have h : (Prod.fst ∘ fun (e : String × α) => (e.1, f e.2)) = Prod.fst := rfl
    simpa [List.map_map, h] using m.distinct⟩

end OrderedMap

end TodoIndex
