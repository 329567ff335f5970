import TodoIndex.Files.Disk
import TodoIndex.Proofs.OrderedMap

/-! # The flat view of a folder

A folder is looked at place by place: `view` says what stands at a place, and a directory counts
there without its contents.  Putting an entry somewhere or taking one away changes the view at
that place alone, and names that a folder does not use cannot be met in its view.
-/

namespace TodoIndex

open Text (Bytes)

namespace Path

theorem compareBytes_eq_iff {s t : Bytes} : compareBytes s t = .eq ↔ s = t := by
  induction s generalizing t with
  | nil => cases t <;> simp [compareBytes]
  | cons a s ih =>
      cases t with
      | nil => simp [compareBytes]
      | cons b t =>
          simp only [compareBytes, Ordering.then_eq_eq, ih, List.cons.injEq]
          rw [Std.compare_eq_iff_eq]

end Path

namespace Entry

/-- An entry without what is inside it. -/
def bare : Entry → Entry
  | .folder _ => .folder .empty
  | entry => entry

/-- A directory with nothing in it stands for all directories in a view. -/
def aFolder : Entry :=
  .folder .empty

@[simp] theorem bare_file (content : Bytes) (executable : Bool) :
    (Entry.file content executable).bare = .file content executable := rfl

@[simp] theorem bare_link (target : Bytes) : (Entry.link target).bare = .link target := rfl

@[simp] theorem bare_folder (inside : Folder) : (Entry.folder inside).bare = aFolder := rfl

@[simp] theorem bare_eq_file {entry : Entry} {content : Bytes} {executable : Bool} :
    entry.bare = .file content executable ↔ entry = .file content executable := by
  cases entry <;> simp [bare]

@[simp] theorem bare_eq_link {entry : Entry} {target : Bytes} :
    entry.bare = .link target ↔ entry = .link target := by
  cases entry <;> simp [bare]

@[simp] theorem bare_eq_aFolder {entry : Entry} :
    entry.bare = aFolder ↔ ∃ inside, entry = .folder inside := by
  cases entry <;> simp [bare, aFolder]

@[simp] theorem file_ne_aFolder (content : Bytes) (executable : Bool) :
    Entry.file content executable ≠ aFolder := by
  simp [aFolder]

@[simp] theorem link_ne_aFolder (target : Bytes) : Entry.link target ≠ aFolder := by
  simp [aFolder]

/-- The names in an entry and the pieces of links' targets. -/
def words : Entry → List Bytes
  | .file .. => []
  | .link target => Path.pieces target
  | .folder inside => inside.words

end Entry

namespace Folder

open OrderedMap (lookup_cons_entry lookup_filter_ne)

/-! ## Entries by name -/

theorem lookup_insertEntry (name other : Bytes) (entry : Entry) (entries : List (Bytes × Entry)) :
    (insertEntry name entry entries).lookup other =
      if other = name then some entry else entries.lookup other := by
  induction entries with
  | nil => simp only [insertEntry, lookup_cons_entry]
  | cons e entries ih =>
      obtain ⟨key, old⟩ := e
      simp only [insertEntry]
      split
      · simp only [lookup_cons_entry]
      · rename_i heq
        obtain rfl := Path.compareBytes_eq_iff.mp heq
        by_cases h : other = name <;> simp [lookup_cons_entry, h]
      · rename_i hgt
        have hne : key ≠ name := by
          rintro rfl
          rw [Path.compareBytes_eq_iff.mpr rfl] at hgt
          cases hgt
        by_cases hk : other = key
        · subst hk
          simp [hne]
        · simp only [lookup_cons_entry, hk, if_false, ih]

@[simp] theorem get?_insert (f : Folder) (name other : Bytes) (entry : Entry) :
    (f.insert name entry).get? other = if other = name then some entry else f.get? other := by
  simp [get?, insert, lookup_insertEntry]

@[simp] theorem get?_erase (f : Folder) (name other : Bytes) :
    (f.erase name).get? other = if other = name then none else f.get? other := by
  simp [get?, erase, lookup_filter_ne]

@[simp] theorem get?_empty (name : Bytes) : Folder.empty.get? name = none := rfl

/-! ## Entries by place -/

@[simp] theorem at?_nil (f : Folder) : f.at? [] = some (.folder f) := by
  rw [at?]

theorem at?_cons (f : Folder) (name : Bytes) (place : List Bytes) :
    f.at? (name :: place) =
      match f.get? name with
      | some (.folder inside) => inside.at? place
      | some entry => if place = [] then some entry else none
      | none => none :=
  rfl

/-- What stands at a place, a directory without its contents. -/
def view (f : Folder) (place : List Bytes) : Option Entry :=
  (f.at? place).map Entry.bare

@[simp] theorem view_nil (f : Folder) : f.view [] = some .aFolder := by
  simp [view]

theorem view_cons (f : Folder) (name : Bytes) (place : List Bytes) :
    f.view (name :: place) =
      match f.get? name with
      | some (.folder inside) => inside.view place
      | some entry => if place = [] then some entry else none
      | none => none := by
  simp only [view, at?_cons]
  split
  · rfl
  · rename_i entry hne _
    cases entry with
    | folder inside => exact absurd rfl (hne inside)
    | file content executable => by_cases h : place = [] <;> simp [h]
    | link target => by_cases h : place = [] <;> simp [h]
  · rfl

theorem view_empty_cons (name : Bytes) (place : List Bytes) :
    Folder.empty.view (name :: place) = none := by
  simp [view_cons]

theorem view_eq_aFolder_iff {f : Folder} {place : List Bytes} :
    f.view place = some .aFolder ↔ (f.folderAt? place).isSome := by
  simp only [view, folderAt?]
  cases f.at? place with
  | none => simp
  | some entry => cases entry <;> simp [Entry.bare, Entry.aFolder]

theorem folderAt?_isSome_iff {f : Folder} {place : List Bytes} :
    (∃ inside, f.folderAt? place = some inside) ↔ f.view place = some .aFolder := by
  rw [view_eq_aFolder_iff, Option.isSome_iff_exists]

theorem folderAt?_eq_some_iff {f inside : Folder} {place : List Bytes} :
    f.folderAt? place = some inside ↔ f.at? place = some (.folder inside) := by
  unfold folderAt?
  split <;> rename_i h <;> simp_all

/-- Only a directory has something below it. -/
theorem folderAt?_cons (f : Folder) (head : Bytes) (place : List Bytes) :
    f.folderAt? (head :: place) =
      match f.get? head with
      | some (.folder inside) => inside.folderAt? place
      | _ => none := by
  simp only [folderAt?, at?_cons]
  split
  · rename_i inside heq
    split at heq <;> rename_i hget <;> simp_all
  · rename_i hno
    cases hget : f.get? head with
    | none => rfl
    | some entry => cases entry <;> simp_all

/-- Below a directory is what is inside it. -/
theorem at?_append {f inside : Folder} {place : List Bytes} (h : f.folderAt? place = some inside)
    (below : List Bytes) :
    f.at? (place ++ below) = inside.at? below := by
  induction place generalizing f with
  | nil =>
      obtain rfl : f = inside := by simpa [folderAt?] using h
      rfl
  | cons name place ih =>
      rw [folderAt?_cons] at h
      split at h
      · rename_i next hget
        rw [List.cons_append, at?_cons, hget]
        exact ih h
      · cases h

/-- Above a directory is a directory. -/
theorem exists_folderAt?_of_append {f inside : Folder} {place below : List Bytes}
    (h : f.folderAt? (place ++ below) = some inside) : ∃ above, f.folderAt? place = some above := by
  induction place generalizing f with
  | nil => exact ⟨f, by simp [folderAt?]⟩
  | cons name place ih =>
      rw [List.cons_append, folderAt?_cons] at h
      rw [folderAt?_cons]
      split at h
      · exact ih h
      · cases h

theorem at?_append_singleton (f : Folder) (place : List Bytes) (name : Bytes) :
    (f.folderAt? place).bind (·.get? name) = f.at? (place ++ [name]) := by
  induction place generalizing f with
  | nil =>
      simp only [folderAt?, at?_nil, Option.bind_some, List.nil_append, at?_cons]
      split <;> rename_i h <;> simp [h]
  | cons head place ih =>
      rw [folderAt?_cons, List.cons_append, at?_cons]
      cases hget : f.get? head with
      | none => rfl
      | some entry =>
          cases entry with
          | folder inside => exact ih inside
          | file content executable => simp
          | link target => simp

theorem view_below_ne {f : Folder} {place : List Bytes} {name : Bytes}
    (h : f.view (place ++ [name]) ≠ none) : f.view place = some .aFolder := by
  have hat : f.at? (place ++ [name]) ≠ none := by
    intro hn
    exact h (by simp [view, hn])
  rw [← at?_append_singleton] at hat
  cases hf : f.folderAt? place with
  | none => simp [hf] at hat
  | some inside => exact folderAt?_isSome_iff.mp ⟨inside, hf⟩

/-! ## Changing one place -/

/-- The view of what a name stands for, if no directory with contents is there. -/
theorem view_of_get? {f : Folder} {name : Bytes} {x : Option Entry} (place : List Bytes)
    (hget : f.get? name = x) (hflat : x.map Entry.bare = x) :
    f.view (name :: place) = if place = [] then x else none := by
  rw [view_cons, hget]
  cases x with
  | none => simp
  | some entry =>
      cases entry with
      | file content executable => rfl
      | link target => rfl
      | folder inside =>
          have hempty : inside = .empty := by
            simpa [Entry.bare, Entry.aFolder, eq_comm] using hflat
          subst hempty
          cases place with
          | nil => simp [Entry.aFolder]
          | cons m place => simp [view_empty_cons]

/-- Below a name that does not stand for a directory there is nothing. -/
theorem view_below_eq_none {f : Folder} {name : Bytes} {place : List Bytes}
    (hfree : f.view [name] ≠ some .aFolder) (hplace : place ≠ []) :
    f.view (name :: place) = none := by
  rw [view_cons]
  cases hget : f.get? name with
  | none => rfl
  | some entry =>
      cases entry with
      | folder inside => exact absurd (by simp [view_cons, hget]) hfree
      | file content executable => exact if_neg hplace
      | link target => exact if_neg hplace

/-- A change of one name in a folder sets the view at that name alone. -/
theorem view_change {f : Folder} {change : Folder → Folder} {name : Bytes} {x : Option Entry}
    (hchange : ∀ g m, (change g).get? m = if m = name then x else g.get? m)
    (hflat : x.map Entry.bare = x) (hfree : f.view [name] ≠ some .aFolder) (other : List Bytes) :
    (change f).view other = if other = [name] then x else f.view other := by
  cases other with
  | nil => simp
  | cons m other =>
      by_cases hm : m = name
      · subst hm
        rw [view_of_get? other ((hchange f m).trans (if_pos rfl)) hflat]
        by_cases hother : other = []
        · simp [hother]
        · simp [hother, view_below_eq_none hfree hother]
      · simp [view_cons, hchange, hm]

/-- What a change of one name does to the view; no directory with contents may be lost or come
by it. -/
theorem view_modifyAt {f : Folder} {change : Folder → Folder} {place : List Bytes} {name : Bytes}
    {x : Option Entry}
    (hchange : ∀ g m, (change g).get? m = if m = name then x else g.get? m)
    (hflat : x.map Entry.bare = x) (hfree : f.view (place ++ [name]) ≠ some .aFolder)
    (other : List Bytes) :
    (f.modifyAt change place).view other =
      if other = place ++ [name] ∧ f.view place = some .aFolder then x else f.view other := by
  induction place generalizing f other with
  | nil =>
      rw [modifyAt, view_change hchange hflat hfree]
      simp
  | cons head place ih =>
      rw [modifyAt]
      cases hget : f.get? head with
      | none =>
          have hno : f.view (head :: place) = none := by simp [view_cons, hget]
          simp [hno]
      | some entry =>
          cases entry with
          | file content executable =>
              have hno : f.view (head :: place) ≠ some .aFolder := by
                by_cases h : place = [] <;> simp [view_cons, hget, h]
              simp [hno]
          | link target =>
              have hno : f.view (head :: place) ≠ some .aFolder := by
                by_cases h : place = [] <;> simp [view_cons, hget, h]
              simp [hno]
          | folder inside =>
              have hinside : ∀ rest, f.view (head :: rest) = inside.view rest := by
                intro rest
                simp [view_cons, hget]
              have hfree' : inside.view (place ++ [name]) ≠ some .aFolder := by
                rw [← hinside]
                exact hfree
              cases other with
              | nil => simp
              | cons m other =>
                  by_cases hm : m = head
                  · subst hm
                    simp [view_cons, ih hfree' other, hget]
                  · simp [view_cons, hm]

/-! ## Words -/

theorem mem_words {f : Folder} {word : Bytes} :
    word ∈ f.words ↔ ∃ e ∈ f.toList, word = e.1 ∨ word ∈ e.2.words := by
  induction f with
  | empty => simp [words, toList]
  | file key content executable rest ih => simp [words, toList, ih, Entry.words]
  | link key target rest ih => simp [words, toList, ih, Entry.words, or_assoc]
  | folder key inside rest _ ih => simp [words, toList, ih, Entry.words, or_assoc]

theorem mem_words_of_get? {f : Folder} {name : Bytes} {entry : Entry}
    (h : f.get? name = some entry) : name ∈ f.words ∧ entry.words ⊆ f.words := by
  have hmem := OrderedMap.mem_of_lookup h
  exact ⟨mem_words.mpr ⟨_, hmem, .inl rfl⟩, fun word hword => mem_words.mpr ⟨_, hmem, .inr hword⟩⟩

/-- Every name on the way to something is a word, and so is every piece of a link's target. -/
theorem words_of_view {f : Folder} {place : List Bytes} {entry : Entry}
    (h : f.view place = some entry) :
    place ⊆ f.words ∧ ∀ target, entry = .link target → Path.pieces target ⊆ f.words := by
  induction place generalizing f with
  | nil =>
      simp only [view_nil, Option.some.injEq] at h
      subst h
      simp [Entry.aFolder]
  | cons head place ih =>
      rw [view_cons] at h
      split at h
      · rename_i inside hget
        obtain ⟨hhead, hsub⟩ := mem_words_of_get? hget
        obtain ⟨hplace, hlink⟩ := ih h
        refine ⟨?_, fun target ht => List.Subset.trans (hlink target ht) hsub⟩
        exact List.cons_subset.mpr ⟨hhead, List.Subset.trans hplace hsub⟩
      · rename_i hget
        split at h
        · rename_i hnil
          subst hnil
          cases h
          obtain ⟨hhead, hwords⟩ := mem_words_of_get? hget
          refine ⟨List.cons_subset.mpr ⟨hhead, List.nil_subset _⟩, ?_⟩
          rintro target rfl
          exact hwords
        · cases h
      · cases h

end Folder

end TodoIndex
