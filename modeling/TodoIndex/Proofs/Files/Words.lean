import TodoIndex.Proofs.Files.View

/-! # Words that come and go

Changes at one place in a folder, made one after another, are one change.  A change adds no other
words than those of what it puts there; and a file that is put somewhere and taken away again
leaves no word behind.
-/

namespace TodoIndex

open Text (Bytes)

namespace Folder

variable {f : Folder} {name word : Bytes} {entry : Entry}

theorem mem_insertEntry {e : Bytes × Entry} {entries : List (Bytes × Entry)}
    (h : e ∈ insertEntry name entry entries) : e = (name, entry) ∨ e ∈ entries := by
  induction entries with
  | nil => exact .inl (by simpa [insertEntry] using h)
  | cons first entries ih =>
      obtain ⟨other, old⟩ := first
      rw [insertEntry] at h
      split at h
      · exact List.mem_cons.mp h
      · exact (List.mem_cons.mp h).imp id (List.mem_cons_of_mem _)
      · rcases List.mem_cons.mp h with rfl | h
        · exact .inr List.mem_cons_self
        · exact (ih h).imp id (List.mem_cons_of_mem _)

theorem words_insert (h : word ∈ (f.insert name entry).words) :
    word = name ∨ word ∈ entry.words ∨ word ∈ f.words := by
  obtain ⟨e, he, hword⟩ := mem_words.mp h
  rw [insert, toList_ofList] at he
  rcases mem_insertEntry he with rfl | he
  · exact hword.imp id .inl
  · exact .inr (.inr (mem_words.mpr ⟨e, he, hword⟩))

/-- A file that is taken away again leaves no word behind. -/
theorem words_erase_insert {content : Bytes} {executable : Bool}
    (h : word ∈ ((f.insert name (.file content executable)).erase name).words) :
    word ∈ f.words := by
  obtain ⟨e, he, hword⟩ := mem_words.mp h
  rw [erase, toList_ofList, insert, toList_ofList] at he
  obtain ⟨hmem, hother⟩ := List.mem_filter.mp he
  rcases mem_insertEntry hmem with rfl | hmem
  · simp at hother
  · exact mem_words.mpr ⟨e, hmem, hword⟩

theorem insertEntry_insertEntry (name : Bytes) (entry old : Entry)
    (entries : List (Bytes × Entry)) :
    insertEntry name entry (insertEntry name old entries) = insertEntry name entry entries := by
  have hself : Path.compareBytes name name = .eq := Path.compareBytes_eq_iff.mpr rfl
  induction entries with
  | nil => simp [insertEntry, hself]
  | cons first entries ih =>
      obtain ⟨other, there⟩ := first
      rw [insertEntry, insertEntry]
      cases hcompare : Path.compareBytes name other with
      | lt => simp [insertEntry, hself]
      | eq => simp [insertEntry, hself]
      | gt => simp [insertEntry, hcompare, ih]

@[simp] theorem insert_insert (f : Folder) (name : Bytes) (entry old : Entry) :
    (f.insert name old).insert name entry = f.insert name entry := by
  rw [insert, insert, toList_ofList, insertEntry_insertEntry, insert]

/-- Two changes at a place are one. -/
theorem modifyAt_modifyAt (change other : Folder → Folder) (f : Folder) (place : List Bytes) :
    (f.modifyAt other place).modifyAt change place =
      f.modifyAt (fun g => change (other g)) place := by
  induction place generalizing f with
  | nil => rfl
  | cons name place ih =>
      cases hget : f.get? name with
      | none => simp only [modifyAt, hget]
      | some entry =>
          cases entry with
          | file content executable => simp only [modifyAt, hget]
          | link target => simp only [modifyAt, hget]
          | folder inside => simp only [modifyAt, hget, get?_insert, if_pos, insert_insert, ih]

/-- A change at a place adds no more words than it adds to the folder there. -/
theorem words_modifyAt {change : Folder → Folder} {place : List Bytes} (more : Bytes → Prop)
    (hchange : ∀ g, word ∈ (change g).words → word ∈ g.words ∨ more word)
    (h : word ∈ (f.modifyAt change place).words) : word ∈ f.words ∨ more word := by
  induction place generalizing f with
  | nil => exact hchange f h
  | cons name place ih =>
      rw [modifyAt] at h
      split at h
      · rename_i inside hget
        obtain ⟨hname, hinside⟩ := mem_words_of_get? hget
        rcases words_insert h with rfl | hword | hword
        · exact .inl hname
        · exact (ih hword).imp_left fun hword => hinside hword
        · exact .inl hword
      · exact .inl h

end Folder

namespace Disk

variable {d : Disk} {place : List Bytes} {name word : Bytes}

/-- What is put where something was put before takes its place. -/
theorem put_put (d : Disk) (place : List Bytes) (name : Bytes) (entry old : Entry) :
    (d.put place name old).put place name entry = d.put place name entry := by
  simp only [put, change, Folder.modifyAt_modifyAt, Folder.insert_insert]

theorem words_put {entry : Entry} (h : word ∈ (d.put place name entry).words) :
    word = name ∨ word ∈ entry.words ∨ word ∈ d.words := by
  rcases List.mem_append.mp h with h | h
  · have hmore := Folder.words_modifyAt (fun word => word = name ∨ word ∈ entry.words)
      (fun g hword => by
        rcases Folder.words_insert hword with hword | hword | hword
        · exact .inr (.inl hword)
        · exact .inr (.inr hword)
        · exact .inl hword) h
    rcases hmore with hword | hword | hword
    · exact .inr (.inr (List.mem_append_left _ hword))
    · exact .inl hword
    · exact .inr (.inl hword)
  · exact .inr (.inr (List.mem_append_right _ h))

/-- A file that is put somewhere and taken away again leaves no word behind. -/
theorem words_eraseAt_put {content : Bytes} {executable : Bool}
    (h : word ∈ ((d.put place name (.file content executable)).eraseAt (place ++ [name])).words) :
    word ∈ d.words := by
  simp only [eraseAt, List.getLast?_concat, List.dropLast_concat, put, change,
    Folder.modifyAt_modifyAt] at h
  rcases List.mem_append.mp h with h | h
  · have hmore := Folder.words_modifyAt (fun _ => False)
      (fun g hword => .inl (Folder.words_erase_insert hword)) h
    rcases hmore with hword | hword
    · exact List.mem_append_left _ hword
    · cases hword
  · exact List.mem_append_right _ h

end Disk

end TodoIndex
