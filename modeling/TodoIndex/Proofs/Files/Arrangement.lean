import TodoIndex.Proofs.Files.Children

/-! # Folders in order

A folder is taken apart entry by entry, and only a directory has something inside.  Arranging a
folder puts the names in order, here and in all directories below, and leaves at every place what
was there.
-/

namespace TodoIndex

open Text (Bytes)

namespace Path

/-- Names are compared as lists of bytes. -/
theorem compareBytes_lt_iff {s t : Bytes} : compareBytes s t = .lt ↔ s < t := by
  induction s generalizing t with
  | nil => cases t <;> simp [compareBytes]
  | cons a s ih =>
      cases t with
      | nil => simp [compareBytes]
      | cons b t =>
          rw [compareBytes, Ordering.then_eq_lt, Std.compare_eq_lt, Std.compare_eq_iff_eq, ih,
            List.cons_lt_cons_iff]

theorem compareBytes_gt_iff {s t : Bytes} : compareBytes s t = .gt ↔ t < s := by
  induction s generalizing t with
  | nil => cases t <;> simp [compareBytes]
  | cons a s ih =>
      cases t with
      | nil => simp [compareBytes]
      | cons b t =>
          rw [compareBytes, Ordering.then_eq_gt, Std.compare_eq_gt, Std.compare_eq_iff_eq, ih,
            List.cons_lt_cons_iff, eq_comm]

end Path

namespace Entry

/-- What is inside an entry; only a directory has something inside. -/
def inside : Entry → Folder
  | .folder f => f
  | _ => .empty

/-- The same entry with all that is inside in order. -/
def arranged : Entry → Entry
  | .folder f => .folder f.arranged
  | entry => entry

@[simp] theorem kind_arranged (entry : Entry) : entry.arranged.kind = entry.kind := by
  cases entry <;> rfl

theorem inside_arranged (entry : Entry) : entry.arranged.inside = entry.inside.arranged := by
  cases entry <;> rfl

end Entry

namespace Folder

variable {f : Folder} {name other : Bytes} {entry : Entry} {place : List Bytes}

/-- A folder is empty or has a first entry. -/
theorem cons_induction {motive : Folder → Prop} (empty : motive .empty)
    (cons : ∀ name entry rest, motive entry.inside → motive rest → motive (cons name entry rest))
    (f : Folder) : motive f := by
  induction f with
  | empty => exact empty
  | file name content executable rest ih => exact cons name (.file content executable) rest empty ih
  | link name target rest ih => exact cons name (.link target) rest empty ih
  | folder name inside rest ihInside ih => exact cons name (.folder inside) rest ihInside ih

/-! ## The first entry -/

theorem get?_cons (name other : Bytes) (entry : Entry) (rest : Folder) :
    (cons name entry rest).get? other = if other = name then some entry else rest.get? other := by
  rw [get?, toList_cons, OrderedMap.lookup_cons_entry, get?]

/-- Below a name is what is inside its entry. -/
theorem at?_cons_cons (f : Folder) (name next : Bytes) (place : List Bytes) :
    f.at? (name :: next :: place) = (f.get? name).bind fun e => e.inside.at? (next :: place) := by
  rw [at?_cons]
  cases f.get? name with
  | none => rfl
  | some entry => cases entry <;> rfl

theorem at?_singleton (f : Folder) (name : Bytes) : f.at? [name] = f.get? name := by
  rw [at?_cons]
  cases f.get? name with
  | none => rfl
  | some entry => cases entry <;> simp

theorem get?_of_at? (h : f.at? (name :: place) = some entry) :
    ∃ first, f.get? name = some first := by
  cases hget : f.get? name with
  | none => simp [at?_cons, hget] at h
  | some first => exact ⟨first, rfl⟩

theorem at?_cons_of_ne {rest : Folder} {first : Bytes} (h : name ≠ first) :
    (cons first entry rest).at? (name :: place) = rest.at? (name :: place) := by
  rw [at?_cons, get?_cons, if_neg h, ← at?_cons]

/-! ## Names of entries -/

/-- Every name in a folder and below it is one that an entry can have. -/
def WellNamed : Folder → Prop
  | .empty => True
  | .file name _ _ rest => IsEntryName name ∧ rest.WellNamed
  | .link name _ rest => IsEntryName name ∧ rest.WellNamed
  | .folder name inside rest => IsEntryName name ∧ inside.WellNamed ∧ rest.WellNamed

instance decidableWellNamed : (f : Folder) → Decidable f.WellNamed
  | .empty => inferInstanceAs (Decidable True)
  | .file _ _ _ rest =>
      have := decidableWellNamed rest
      inferInstanceAs (Decidable (_ ∧ _))
  | .link _ _ rest =>
      have := decidableWellNamed rest
      inferInstanceAs (Decidable (_ ∧ _))
  | .folder _ inside rest =>
      have := decidableWellNamed inside
      have := decidableWellNamed rest
      inferInstanceAs (Decidable (_ ∧ _ ∧ _))

theorem wellNamed_cons (name : Bytes) (entry : Entry) (rest : Folder) :
    (cons name entry rest).WellNamed ↔
      IsEntryName name ∧ entry.inside.WellNamed ∧ rest.WellNamed := by
  cases entry <;> simp [cons, WellNamed, Entry.inside]

theorem WellNamed.of_get? (h : f.WellNamed) (hget : f.get? name = some entry) :
    IsEntryName name ∧ entry.inside.WellNamed := by
  induction f using cons_induction with
  | empty => simp at hget
  | cons first entry' rest _ ih =>
      obtain ⟨hname, hinside, hrest⟩ := (wellNamed_cons _ _ _).mp h
      rw [get?_cons] at hget
      split at hget
      · rename_i heq
        cases hget
        exact ⟨heq ▸ hname, hinside⟩
      · exact ih hrest hget

/-- All names on the way to something are names of entries. -/
theorem WellNamed.of_at? (h : f.WellNamed) (hat : f.at? place = some entry) :
    ∀ name ∈ place, IsEntryName name := by
  induction place generalizing f with
  | nil => simp
  | cons name place ih =>
      obtain ⟨first, hget⟩ := get?_of_at? hat
      obtain ⟨hname, hinside⟩ := h.of_get? hget
      refine List.forall_mem_cons.mpr ⟨hname, ?_⟩
      cases place with
      | nil => simp
      | cons next place =>
          rw [at?_cons_cons, hget] at hat
          exact ih hinside hat

/-- What is inside a directory below is named as well. -/
theorem WellNamed.of_folderAt? {inside : Folder} (h : f.WellNamed)
    (hinside : f.folderAt? place = some inside) : inside.WellNamed := by
  induction place generalizing f with
  | nil =>
      obtain rfl : f = inside := by simpa [folderAt?] using hinside
      exact h
  | cons name place ih =>
      rw [folderAt?_cons] at hinside
      split at hinside
      · rename_i next hget
        exact ih (h.of_get? hget).2 hinside
      · cases hinside

/-! ## Names in order -/

/-- All names of a folder come after a name. -/
def Follows (f : Folder) (name : Bytes) : Prop :=
  ∀ other, f.get? other ≠ none → name < other

/-- Every entry comes before those behind it, here and in all directories below. -/
def Ordered : Folder → Prop
  | .empty => True
  | .file name _ _ rest => rest.Follows name ∧ rest.Ordered
  | .link name _ rest => rest.Follows name ∧ rest.Ordered
  | .folder name inside rest => rest.Follows name ∧ inside.Ordered ∧ rest.Ordered

theorem ordered_cons (name : Bytes) (entry : Entry) (rest : Folder) :
    (cons name entry rest).Ordered ↔ rest.Follows name ∧ entry.inside.Ordered ∧ rest.Ordered := by
  cases entry <;> simp [cons, Ordered, Entry.inside]

theorem Follows.get?_eq_none (h : f.Follows name) : f.get? name = none := by
  cases hget : f.get? name with
  | none => rfl
  | some entry => exact absurd (h name (by simp [hget])) (List.lt_irrefl name)

theorem Follows.trans (h : f.Follows name) (hlt : other < name) : f.Follows other :=
  fun _ hne => List.lt_trans hlt (h _ hne)

theorem follows_cons {rest : Folder} (hlt : other < name) (h : rest.Follows other) :
    (cons name entry rest).Follows other := by
  intro key hkey
  rw [get?_cons] at hkey
  split at hkey
  · rename_i heq
    exact heq ▸ hlt
  · exact h key hkey

theorem Follows.insert (h : f.Follows other) (hlt : other < name) :
    (f.insert name entry).Follows other := by
  intro key hkey
  rw [get?_insert] at hkey
  split at hkey
  · rename_i heq
    exact heq ▸ hlt
  · exact h key hkey

@[simp] theorem ofList_toList (f : Folder) : ofList f.toList = f := by
  induction f using cons_induction with
  | empty => rfl
  | cons name entry rest _ ih =>
      rw [toList_cons, ofList, List.foldr_cons]
      exact congrArg (cons name entry) ih

theorem insert_cons (name first : Bytes) (entry old : Entry) (rest : Folder) :
    (cons first old rest).insert name entry =
      match Path.compareBytes name first with
      | .lt => cons name entry (cons first old rest)
      | .eq => cons name entry rest
      | .gt => cons first old (rest.insert name entry) := by
  have hfold : ∀ key e entries, ofList ((key, e) :: entries) = cons key e (ofList entries) :=
    fun _ _ _ => rfl
  rw [insert, toList_cons, insertEntry]
  cases Path.compareBytes name first with
  | lt => simp only [hfold, ofList_toList]
  | eq => simp only [hfold, ofList_toList]
  | gt => simp only [hfold, insert]

theorem Ordered.insert (h : f.Ordered) (hentry : entry.inside.Ordered) :
    (f.insert name entry).Ordered := by
  induction f using cons_induction with
  | empty => exact (ordered_cons name entry .empty).mpr ⟨by simp [Follows], hentry, h⟩
  | cons first old rest _ ih =>
      obtain ⟨hfollows, hold, hrest⟩ := (ordered_cons _ _ _).mp h
      rw [insert_cons]
      split
      · rename_i hlt
        rw [Path.compareBytes_lt_iff] at hlt
        exact (ordered_cons _ _ _).mpr ⟨follows_cons hlt (hfollows.trans hlt), hentry, h⟩
      · rename_i heq
        obtain rfl := Path.compareBytes_eq_iff.mp heq
        exact (ordered_cons _ _ _).mpr ⟨hfollows, hentry, hrest⟩
      · rename_i hgt
        rw [Path.compareBytes_gt_iff] at hgt
        exact (ordered_cons _ _ _).mpr ⟨hfollows.insert hgt, hold, ih hrest⟩

/-! ## Arranging -/

theorem arranged_cons (name : Bytes) (entry : Entry) (rest : Folder) :
    (cons name entry rest).arranged = rest.arranged.insert name entry.arranged := by
  cases entry <;> rfl

theorem ordered_arranged (f : Folder) : f.arranged.Ordered := by
  induction f using cons_induction with
  | empty => trivial
  | cons name entry rest ihInside ih =>
      rw [arranged_cons]
      exact ih.insert (entry.inside_arranged ▸ ihInside)

theorem get?_arranged (f : Folder) (name : Bytes) :
    f.arranged.get? name = (f.get? name).map Entry.arranged := by
  induction f using cons_induction with
  | empty => rfl
  | cons first entry rest _ ih =>
      rw [arranged_cons, get?_insert, get?_cons, ih]
      split <;> rfl

/-- Arranging moves nothing to another place. -/
theorem at?_arranged (f : Folder) (place : List Bytes) :
    f.arranged.at? place = (f.at? place).map Entry.arranged := by
  induction place generalizing f with
  | nil => simp [Entry.arranged]
  | cons name place ih =>
      cases place with
      | nil => rw [at?_singleton, at?_singleton, get?_arranged]
      | cons next place =>
          rw [at?_cons_cons, at?_cons_cons, get?_arranged]
          cases f.get? name with
          | none => rfl
          | some entry => exact (entry.inside_arranged ▸ ih entry.inside :)

end Folder

end TodoIndex
