import TodoIndex.Proofs.Files.Writes

/-! # Creating directories

Creating a directory with those above it is one attempt after another, each on a path above.
What every attempt preserves is preserved by them all; so a disk only grows, by directories, and
does not change at all where the directory is there already.
-/

namespace TodoIndex

namespace View

variable {v : View} {links : Nat} {place pieces : List Text.Bytes}

/-- A path that leads somewhere leads somewhere when a link at its end is not followed. -/
theorem seek_false_of_true {found : List Text.Bytes} {entry : Entry}
    (h : seek v true links place pieces = .ok (.found found entry)) :
    ∃ found entry, seek v false links place pieces = .ok (.found found entry) := by
  have hfinds := finds_of_seek h
  clear h
  generalize hspot : Spot.found found entry = spot at hfinds
  induction hfinds with
  | here hplace => exact ⟨_, _, seek_of_finds (.here hplace)⟩
  | idle hi _ ih =>
      rw [seek_idle hi]
      exact ih hspot
  | up _ ih =>
      rw [seek_up]
      exact ih hspot
  | free => cases hspot
  | file hn hview => exact ⟨_, _, seek_file hn hview⟩
  | link _ _ hlast => cases hlast
  | folder hn hview _ ih =>
      rw [seek_folder hn hview]
      exact ih hspot
  | @behind _ _ rest _ _ _ hn hview _ _ ih =>
      by_cases hrest : rest = []
      · subst hrest
        exact ⟨_, _, seek_link hn hview⟩
      · rw [seek_behind hn hview (by simp [hrest]), follow_succ]
        exact ih hspot

end View

namespace Disk

variable {first d : Disk} {p folder : Path}

/-- A path and the paths above it, as they are tried one after another. -/
inductive Above : (above p : Path) → Prop where
  | self {p : Path} : Above p p
  | parent {above p : Path} : Above above (p.parent?.getD ⟨[]⟩) → Above above p

theorem allowFolder_snd (p : Path) (outcome : Except OsError Unit × Disk) :
    (allowFolder p outcome).2 = outcome.2 := by
  obtain ⟨_ | _, d⟩ := outcome
  · rw [allowFolder]
    split <;> rfl
  · rfl

/-- What every attempt to create a directory preserves holds all the way. -/
theorem createFolders_induction {P : Disk → Prop} (depth : Nat) (hd : P d)
    (hstep : ∀ d above, P d → Above above p → P (d.createFolder above).2) :
    P (createFoldersWithin depth d p).2 ∧ ∀ m ∈ foldersPassedWithin depth d p, P m := by
  induction depth generalizing p d with
  | zero => exact ⟨hd, by simp [foldersPassedWithin]⟩
  | succ depth ih =>
      rw [createFoldersWithin, foldersPassedWithin]
      by_cases hempty : p.isEmpty = true
      · rw [if_pos hempty, if_pos hempty]
        exact ⟨hd, by simp⟩
      rw [if_neg hempty, if_neg hempty]
      have hself : P (d.createFolder p).2 := hstep d p hd .self
      cases hfirst : d.createFolder p with
      | mk outcome made =>
          rw [hfirst] at hself
          have hstay : P (allowFolder p (outcome, made)).2 ∧ ∀ m ∈ [made], P m :=
            ⟨by rwa [allowFolder_snd], by simpa using hself⟩
          cases outcome with
          | ok => exact hstay
          | error e =>
              cases e with
              | notFound =>
                  obtain ⟨habove, hpassed⟩ := ih (p := p.parent?.getD ⟨[]⟩) hself
                    fun d above hd hlies => hstep d above hd (.parent hlies)
                  dsimp only
                  cases hrest : createFoldersWithin depth made (p.parent?.getD ⟨[]⟩) with
                  | mk outcome last =>
                      rw [hrest] at habove
                      cases outcome with
                      | error e => exact ⟨habove, hpassed⟩
                      | ok =>
                          have hlast : P (last.createFolder p).2 := hstep last p habove .self
                          refine ⟨by rwa [allowFolder_snd], fun m hm => ?_⟩
                          rcases List.mem_append.mp hm with hm | hm
                          · exact hpassed m hm
                          · rwa [List.mem_singleton.mp hm]
              | _ => exact hstay

/-! ## Growing -/

/-- A disk has all that another one has, and beyond it directories alone. -/
structure Grown (first d : Disk) : Prop where
  here : d.here = first.here
  kept : ∀ place entry, first.view place = some entry → d.view place = some entry
  added : ∀ place entry, d.view place = some entry → first.view place = some entry ∨
    entry = .aFolder

theorem Grown.refl (d : Disk) : Grown d d :=
  ⟨rfl, fun _ _ h => h, fun _ _ h => .inl h⟩

theorem Grown.createFolder (h : Grown first d) (p : Path) : Grown first (d.createFolder p).2 := by
  rcases createFolder_cases d p with
    ⟨e, he⟩ | ⟨place, name, slash, made, hseek, hmade, hhere, hview⟩
  · rw [he]
    exact h
  rw [hmade]
  have hnone : d.view (place ++ [name]) = none := (shows_of_seek hseek).2
  refine ⟨hhere.trans h.here, fun other entry ho => ?_, fun other entry ho => ?_⟩
  · rw [hview]
    exact View.set_mono hnone (h.kept other entry ho)
  · rw [hview] at ho
    by_cases hsame : other = place ++ [name]
    · rw [hsame, View.set_same] at ho
      exact .inr (Option.some.inj ho).symm
    · rw [View.set_other hsame] at ho
      exact h.added other entry ho

theorem grown_createFolders (d : Disk) (p : Path) : Grown d (d.createFolders p).2 ∧
    ∀ m ∈ d.foldersPassed p, Grown d m :=
  createFolders_induction _ (.refl d) fun _ above h _ => h.createFolder above

/-- A file on a disk that has grown was there before. -/
theorem Grown.view_file (h : Grown first d) {place : List Text.Bytes}
    {content : Text.Bytes} {executable : Bool}
    (hthere : d.view place = some (.file content executable)) :
    first.view place = some (.file content executable) :=
  (h.added place _ hthere).resolve_right (by simp)

/-- What is found stays found on a disk that has grown. -/
theorem Grown.seek_found (h : Grown first d) {followLast : Bool} {place : List Text.Bytes}
    {entry : Entry} (hseek : first.seek followLast p = .ok (.found place entry)) :
    d.seek followLast p = .ok (.found place entry) := by
  obtain ⟨hallowed, hseek⟩ := seek_eq_ok_iff.mp hseek
  rw [seek_of_allowed hallowed, start_congr h.here]
  exact View.seek_mono h.kept hseek

theorem Grown.seek_error (h : Grown first d) {followLast : Bool} {e : OsError}
    (he : e ≠ .notFound) (hseek : first.seek followLast p = .error e) :
    d.seek followLast p = .error e := by
  cases hallowed : refusal? p with
  | some refusal =>
      rw [seek, hallowed] at hseek ⊢
      exact hseek
  | none =>
      rw [seek_of_allowed hallowed] at hseek ⊢
      rw [start_congr h.here]
      exact View.seek_error_mono h.kept he hseek

/-- Only what is missing can be read in another way on a disk that has grown. -/
theorem Grown.contents_eq (h : Grown first d) (hthere : first.contents p ≠ .error .notFound) :
    d.contents p = first.contents p := by
  rw [Disk.contents_eq] at hthere
  rw [Disk.contents_eq, Disk.contents_eq]
  cases hseek : first.seek true p with
  | ok spot =>
      cases spot with
      | found place entry => rw [h.seek_found hseek]
      | free place name slash => exact absurd (by rw [hseek]; rfl) hthere
  | error e =>
      have he : e ≠ .notFound := by
        rintro rfl
        exact hthere (by rw [hseek]; rfl)
      rw [h.seek_error he hseek]

theorem Grown.isFolder (h : Grown first d) (hp : first.isFolder p = true) :
    d.isFolder p = true := by
  obtain ⟨place, hseek⟩ := isFolder_iff.mp hp
  exact isFolder_iff.mpr ⟨place, h.seek_found hseek⟩

/-- What a path leads to through a link is found when the link is not followed as well. -/
theorem find_false_of_seek_true {place : List Text.Bytes} {there : Entry}
    (h : d.seek true p = .ok (.found place there)) :
    ∃ found entry, d.find false p = .ok (.found found entry) := by
  obtain ⟨found, entry, hfound⟩ : ∃ found entry, d.seek false p = .ok (.found found entry) := by
    obtain ⟨hallowed, h⟩ := seek_eq_ok_iff.mp h
    rw [seek_of_allowed hallowed]
    exact View.seek_false_of_true h
  obtain ⟨there, hfind, -⟩ := find_of_seek_found hfound
  exact ⟨found, there, hfind⟩

/-- What a path leads to stands at it, or a link does. -/
theorem entry_false_cases {there : Entry} (h : d.entry true p = .ok there) :
    d.entry false p = .ok there ∨ ∃ target, d.entry false p = .ok (.link target) := by
  obtain ⟨place, hfind⟩ := find_of_entry h
  obtain ⟨found, entry, hfound⟩ := find_false_of_seek_true (seek_of_find hfind)
  have hentry : d.entry false p = .ok entry := by simp [Disk.entry, hfound]
  have hsame (hkind : entry.kind ≠ .link) : d.entry false p = .ok there :=
    hentry.trans ((entry_followLast hkind hentry).symm.trans h)
  cases entry with
  | link target => exact .inr ⟨target, hentry⟩
  | file content executable => exact .inl (hsame (by simp [Entry.kind]))
  | folder inside => exact .inl (hsame (by simp [Entry.kind]))

/-- Nothing is created where the directory is there. -/
theorem createFolders_of_isFolder (h : d.isFolder p = true) :
    d.createFolders p = (.ok (), d) ∧ d.foldersPassed p = [d] := by
  obtain ⟨place, hseek⟩ := isFolder_iff.mp h
  have hnonempty : p.isEmpty = false := by
    refine Bool.eq_false_iff.mpr fun hempty => ?_
    have hrefusal : refusal? p ≠ none := by
      rw [refusal?, if_pos hempty]
      split <;> simp
    exact hrefusal (seek_eq_ok_iff.mp hseek).1
  have hcreate : d.createFolder p = (.error .exists, d) := by
    obtain ⟨found, entry, hfind⟩ := find_false_of_seek_true hseek
    rw [createFolder, hfind]
  constructor
  · rw [createFolders, createFoldersWithin, if_neg (by simp [hnonempty]), hcreate]
    exact if_pos h
  · rw [foldersPassed, foldersPassedWithin, if_neg (by simp [hnonempty]), hcreate]

end Disk

end TodoIndex
