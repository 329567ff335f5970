import TodoIndex.Proofs.Store.SavingAgain

/-! # How a save ends

A save that nothing hinders writes its draft and moves it to the place of the document.  Whether
that succeeds, and how it fails, is a matter of the disk and the path; what is written makes no
difference.  A save that has failed fails again on the disk that it leaves, if the directory of
the document was there or its path is plain.
-/

namespace TodoIndex

open Text (Bytes)

namespace Folder

/-- An entry that is put under a name and erased again leaves what erasing the name leaves. -/
theorem erase_insert (f : Folder) (name : Bytes) (entry : Entry) :
    (f.insert name entry).erase name = f.erase name := by
  have hfilter : ∀ entries : List (Bytes × Entry),
      (insertEntry name entry entries).filter (fun e => !decide (e.1 = name)) =
        entries.filter fun e => !decide (e.1 = name) := by
    intro entries
    induction entries with
    | nil => simp [insertEntry]
    | cons e entries ih =>
        obtain ⟨other, old⟩ := e
        rw [insertEntry]
        split
        · simp
        · rename_i heq
          simp [Path.compareBytes_eq_iff.mp heq]
        · simp [List.filter_cons, ih]
  rw [erase, insert, toList_ofList, hfilter]
  rfl

end Folder

namespace Disk

variable {d first : Disk} {t : Bytes} {p target : Path} {at_ : List Bytes} {content : Bytes}
  {executable : Bool}

theorem eraseAt_put (d : Disk) (place : List Bytes) (name : Bytes) (entry : Entry) :
    (d.put place name entry).eraseAt (place ++ [name]) = d.change place (·.erase name) := by
  simp only [eraseAt, List.getLast?_concat, List.dropLast_concat, put, change,
    Folder.modifyAt_modifyAt, Folder.erase_insert]

/-- A draft that was put on a disk is removed without regard to what it held. -/
theorem LeadsTo.remove_put (hl : LeadsTo first p at_ t)
    (h : Drafted first at_ t (some (.file content executable)) d)
    (hd : d = first.put at_ t (.file content executable)) :
    (d.remove p).2 = first.change at_ (·.erase t) := by
  have hfind := find_of_seek_file (h.seek_self hl)
  rw [remove, hfind, hd]
  exact eraseAt_put first at_ t _

end Disk

namespace Store

open Disk (Drafted LeadsTo Unused Names)

variable {ready disk last : Disk} {path : Path} {t : Bytes} {at_ : List Bytes} {s : Store}
  {cause : StoreError} {e : OsError}

/-! ## All stores alike -/

/-- Every store can be saved. -/
def Admits (disk : Disk) (path : Path) : Prop :=
  ∀ s : Store, ∃ last, s.saveUnder .none disk path = (.ok (), last)

/-- No store can be saved, for the same reason, and the disk that is left is the same. -/
def Refuses (disk : Disk) (path : Path) (cause : StoreError) (last : Disk) : Prop :=
  ∀ s : Store, s.saveUnder .none disk path = (.error cause, last)

section
variable (hcreate : disk.createFolders (folderOf path) = (.ok (), ready)) (hu : ready.Unused t)
  (hl : LeadsTo ready (temporaryIn .none ready (folderOf path) path) at_ t)
  (hnames : Names t (temporaryIn .none ready (folderOf path) path))
  (ht : t ∉ Path.pieces path.bytes)
include hcreate hu hl hnames ht

theorem admits_of_draft (h : ready.acceptance path = .ok ()) : Admits disk path := by
  intro s
  obtain ⟨full, executable, -, hfull, hiff⟩ := saveUnder_none (s := s) hcreate hu hl
  have hmove := hfull.move_fst hu hl hnames ht
  rw [h] at hmove
  exact ⟨_, (hiff _).mpr (Prod.ext hmove rfl)⟩

theorem refuses_of_draft (h : ready.acceptance path = .error e) :
    Refuses disk path (.notReplaced path e) (ready.change at_ (·.erase t)) := by
  intro s
  obtain ⟨earlier, full, executable, hput, hfull, hsaving⟩ := savingIn_none (s := s) hu hl
  have hmove := hfull.move_fst hu hl hnames ht
  rw [h] at hmove
  have hstay : full.move (temporaryIn .none ready (folderOf path) path) path =
      (.error e, full) := by
    rcases hfull.move hu hl ht with ⟨e', he⟩ | ⟨moved, hmoved, -⟩
    · rw [he] at hmove ⊢
      cases hmove
      rfl
    · rw [hmoved] at hmove
      cases hmove
  have hmade : Obstacle.none.fails .makeFolder = none := rfl
  have hgone := hl.remove_put hfull hput
  rw [saveUnder, savingUnder]
  simp only [hmade, hcreate, hsaving, replaceBy, attempt_none, hstay]
  simp [giveUp, Saving.behind, Saving.after, Saving.disk, hgone, List.getLast?_cons,
    List.getLast?_append]

end

/-- A directory that cannot be created stops the save of every store. -/
theorem refuses_of_createFolders (h : disk.createFolders (folderOf path) = (.error e, last)) :
    Refuses disk path (.io (folderOf path) e) last := by
  intro s
  have hmade : Obstacle.none.fails .makeFolder = none := rfl
  rw [saveUnder, savingUnder]
  simp [hmade, h, Saving.disk, List.getLast?_cons]

/-- A draft that cannot be made stops the save of every store. -/
theorem refuses_of_writeFile (hcreate : disk.createFolders (folderOf path) = (.ok (), ready))
    (h : ready.writeFile (temporaryIn .none ready (folderOf path) path) [] = (.error e, last)) :
    Refuses disk path (.io (folderOf path) e) last := by
  intro s
  have hmade : Obstacle.none.fails .makeFolder = none := rfl
  rw [saveUnder, savingUnder]
  simp [hmade, hcreate, savingIn, attempt_none, h, Saving.after, Saving.disk, List.getLast?_cons,
    List.getLast?_append]

/-- **A store can be saved or not, whatever it holds.** -/
theorem admits_or_refuses (disk : Disk) (path : Path) :
    Admits disk path ∨ ∃ cause last, Refuses disk path cause last := by
  cases hcreate : disk.createFolders (folderOf path) with
  | mk outcome ready =>
  cases outcome with
  | error e => exact .inr ⟨_, _, refuses_of_createFolders hcreate⟩
  | ok =>
  cases hopen : ready.writeFile (temporaryIn .none ready (folderOf path) path) [] with
  | mk outcome opened =>
  cases outcome with
  | error e => exact .inr ⟨_, _, refuses_of_writeFile hcreate hopen⟩
  | ok =>
      obtain ⟨t, hu, hnames, ht⟩ := temporaryIn_spec .none ready (folderOf path) path
      obtain ⟨at_, hl⟩ := leadsTo_of_writeFile hu hnames hopen
      cases haccept : ready.acceptance path with
      | ok => exact .inl (admits_of_draft hcreate hu hl hnames ht haccept)
      | error e => exact .inr ⟨_, _, refuses_of_draft hcreate hu hl hnames ht haccept⟩

/-! ## Once more -/

/-- A disk on which a document is found as on another one, with its directory there. -/
theorem acceptance_congr {d : Disk} (hhere : d.here = ready.here) (hview : d.view = ready.view) :
    d.acceptance path = ready.acceptance path := by
  unfold Disk.acceptance Disk.seek Disk.start
  rw [hhere, hview]

theorem Refuses.unique {other : StoreError} {final : Disk} (h : Refuses disk path cause last)
    (hother : Refuses disk path other final) : cause = other ∧ last = final := by
  have hsame := (h empty).symm.trans (hother empty)
  simpa using hsame

theorem Admits.not_refuses (h : Admits disk path) (hrefuses : Refuses disk path cause last) :
    False := by
  obtain ⟨saved, hsaved⟩ := h empty
  cases hsaved.symm.trans (hrefuses empty)

/-- What is left of a draft that could not be moved: a disk that shows nothing else, on which the
name can be used again. -/
theorem left_of_draft {n : Nat} (hu : ready.Unused (temporaryName n))
    (hnames : Names (temporaryName n) ((folderOf path).child (temporaryName n)))
    (hl : LeadsTo ready ((folderOf path).child (temporaryName n)) at_ (temporaryName n))
    (hfree : temporaryName n ∉
      ready.words ++ Path.pieces (folderOf path).bytes ++ Path.pieces path.bytes)
    (hlast : last = ready.change at_ (·.erase (temporaryName n))) :
    last.here = ready.here ∧ last.view = ready.view ∧ Reusable last path n := by
  have hput := (hu.drafted_self at_).put hl [] false
  have hgone := hput.remove hl
  rw [hl.remove_put hput rfl, ← hlast] at hgone
  refine ⟨hgone.here, hgone.view_eq hu, .of_draft hu hnames hl fun hmem => hfree ?_⟩
  simp only [List.mem_append] at hmem ⊢
  refine hmem.imp_left (Or.imp_left fun hword => ?_)
  rw [hlast, ← Disk.eraseAt_put ready at_ _ (.file [] false)] at hword
  exact Disk.words_eraseAt_put hword

/-- Where the directory of a document is there, a save that fails fails once more for the same
reason. -/
theorem Refuses.again_in_folder (h : Refuses disk path cause last)
    (hfolder : disk.isFolder (folderOf path) = true) :
    ∃ final, Refuses last path cause final := by
  have hcreate := (Disk.createFolders_of_isFolder hfolder).1
  cases hopen : disk.writeFile (temporaryIn .none disk (folderOf path) path) [] with
  | mk outcome opened =>
  cases outcome with
  | error e =>
      -- The draft could not be made, and the disk is the same.
      obtain ⟨rfl, rfl⟩ := h.unique (refuses_of_writeFile hcreate hopen)
      rcases Disk.writeFile_cases disk (temporaryIn .none disk (folderOf path) path) [] with
        ⟨e', he'⟩ | ⟨_, _, _, _, -, -, -, hwritten, -⟩
      · rw [he'] at hopen
        cases hopen
        exact ⟨_, h⟩
      · rw [hwritten] at hopen
        cases hopen
  | ok =>
      obtain ⟨n, hchosen, hfree⟩ := exists_temporaryName disk path
      obtain ⟨hu, hnames, ht⟩ := draft_of_not_taken hfree
      have hdraft := hnames
      rw [← hchosen] at hdraft
      obtain ⟨at_, hl⟩ := leadsTo_of_writeFile hu hdraft hopen
      cases haccept : disk.acceptance path with
      | ok => exact ((admits_of_draft hcreate hu hl hdraft ht haccept).not_refuses h).elim
      | error e =>
          obtain ⟨rfl, hlast⟩ := h.unique (refuses_of_draft hcreate hu hl hdraft ht haccept)
          rw [hchosen] at hl
          obtain ⟨hhere, hview, hreusable⟩ := left_of_draft hu hnames hl hfree hlast
          have hstill : last.isFolder (folderOf path) = true := by
            obtain ⟨place, hplace⟩ := Disk.isFolder_iff.mp hfolder
            refine Disk.isFolder_iff.mpr ⟨place, ?_⟩
            rwa [Disk.seek, Disk.start, hhere, hview]
          obtain ⟨next, place, hnext, hnamed, haway, hleads⟩ := hreusable.leadsTo hstill
          rw [← acceptance_congr hhere hview] at haccept
          exact ⟨_, refuses_of_draft (Disk.createFolders_of_isFolder hstill).1 hnext hleads hnamed
            haway haccept⟩

/-- A save goes on alike from the disk on which its directory has been created. -/
theorem saveUnder_of_created (s : Store)
    (hcreate : disk.createFolders (folderOf path) = (.ok (), ready))
    (hfolder : ready.isFolder (folderOf path) = true) :
    s.saveUnder .none ready path = s.saveUnder .none disk path := by
  have hmade : Obstacle.none.fails .makeFolder = none := rfl
  have hpassed : (s.savingIn .none (folderOf path) path ready).passed ≠ [] := by
    unfold savingIn
    dsimp only
    split <;> simp [Saving.behind]
  obtain ⟨final, hfinal⟩ := Option.ne_none_iff_exists'.mp
    (mt List.getLast?_eq_none_iff.mp hpassed)
  rw [saveUnder, saveUnder, savingUnder, savingUnder]
  simp [hmade, hcreate, (Disk.createFolders_of_isFolder hfolder).1, Saving.after, Saving.disk,
    List.getLast?_cons, List.getLast?_append, hfinal]

/-- **A save that fails fails once more** for the same reason, if the document is read alike while
its directory is created. -/
theorem Refuses.again (h : Refuses disk path cause last) (hsite : Site disk path) :
    ∃ final, Refuses last path cause final := by
  rcases hsite with hfolder | hplain
  · exact h.again_in_folder hfolder
  rcases createFolders_plain disk hplain with ⟨e, hfailed⟩ | ⟨ready, hready, hfolder⟩
  · obtain ⟨-, rfl⟩ := h.unique (refuses_of_createFolders hfailed)
    exact ⟨_, h⟩
  · have hrefuses : Refuses ready path cause last := by
      intro s
      rw [saveUnder_of_created s hready hfolder, h s]
    exact hrefuses.again_in_folder hfolder

end Store

end TodoIndex
