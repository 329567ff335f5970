import TodoIndex.Proofs.Files.Drafts
import TodoIndex.Proofs.Store.Sites
import TodoIndex.Proofs.Store.TemporaryName
import TodoIndex.Scan.Engine

/-! # Saving is all or nothing

A save writes a draft beside the document and then puts it in the document's place in one step.
Until that step every path but the draft's own leads where it led before, and a save that fails
takes the draft away again.  Whatever state it is cut off in, the document has its old bytes or
its new ones.
-/

namespace TodoIndex

open Text (Bytes)

namespace Disk

variable {first d : Disk} {path : Path} {content : Bytes}

/-- The new file is found, or the path led through the link that the file has replaced. -/
theorem Replaced.seek (h : Replaced first d path content) :
    (∃ place executable, d.seek true path = .ok (.found place (.file content executable))) ∨
      d.seek true path = .error .notDirectory ∧ View.LeadsAway (first.seek true path) ∧
        ∃ place other, first.seek false path = .ok (.found place (.link other)) := by
  obtain ⟨spot, new, executable, hseek, hends, hfree, hview⟩ := h.ends
  have hsame : ∀ other, other ≠ new → d.view other = first.view other := by
    intro other hother
    rw [hview, View.set_other hother]
  have hnew : d.view new = some (.file content executable) := by
    rw [hview, View.set_same]
  obtain ⟨hallowed, hseek⟩ := seek_eq_ok_iff.mp hseek
  simp only [seek_of_allowed hallowed, start_congr h.here]
  rcases View.seek_replaced (isTree_view first) hsame hnew hfree hends hseek with
    hfound | ⟨hstuck, haway, other, rfl⟩
  · exact .inl ⟨new, executable, hfound⟩
  · exact .inr ⟨hstuck, haway, new, other, hseek⟩

/-- What has replaced a document is read, unless its path led through the link at its end. -/
theorem Replaced.contents_cases (h : Replaced first d path content) :
    d.contents path = .ok content ∨
      d.contents path = .error .notDirectory ∧ View.LeadsAway (first.seek true path) ∧
        ∃ place other, first.seek false path = .ok (.found place (.link other)) := by
  rw [contents_eq]
  rcases h.seek with ⟨place, executable, hseek⟩ | ⟨hseek, haway⟩
  · exact .inl (by rw [hseek]; rfl)
  · exact .inr ⟨by rw [hseek]; rfl, haway⟩

/-- A document that was read, or was missing, is read as what has replaced it. -/
theorem Replaced.contents (h : Replaced first d path content)
    (hbefore : (∃ bytes, first.contents path = .ok bytes) ∨
      first.contents path = .error .notFound) :
    d.contents path = .ok content := by
  rcases h.contents_cases with hcontents | ⟨-, hmany | ⟨place, hfolder⟩, -⟩
  · exact hcontents
  · rw [contents_eq, hmany] at hbefore
    rcases hbefore with ⟨bytes, hbytes⟩ | hnone
    · cases hbytes
    · cases hnone
  · rw [contents_eq, hfolder] at hbefore
    rcases hbefore with ⟨bytes, hbytes⟩ | hnone
    · cases hbytes
    · cases hnone

end Disk

namespace Store

open Disk (Drafted LeadsTo Unused Names Replaced Grown)

/-! ## The states that a save passes -/

variable {ready d : Disk} {folder path temporary : Path} {document t : Bytes}
  {at_ : List Bytes} {x : Option Entry} {s : Saving} {obstacle : Obstacle}

/-- A path leads to the same on both disks. -/
def SameEnd (path : Path) (ready d : Disk) : Prop :=
  ∀ followLast, d.seek followLast path = ready.seek followLast path

theorem SameEnd.contents_eq (h : SameEnd path ready d) : d.contents path = ready.contents path := by
  rw [Disk.contents_eq, Disk.contents_eq, h true]

/-- How a save that has its directory ends: it fails and leaves the disk as it was, or the
document is in its place; until then the path leads where it led. -/
inductive Ends (ready : Disk) (path : Path) (document : Bytes) : Saving → Prop where
  | failed {before : List Disk} {last : Disk} {cause : StoreError} :
      (∀ d ∈ before, SameEnd path ready d) → last.here = ready.here → last.view = ready.view →
      Ends ready path document ⟨before ++ [last], .error cause⟩
  | done {before : List Disk} {last : Disk} :
      (∀ d ∈ before, SameEnd path ready d) → Replaced ready last path document →
      Ends ready path document ⟨before ++ [last], .ok ()⟩

theorem Ends.behind (h : Ends ready path document s) (hd : SameEnd path ready d) :
    Ends ready path document (s.behind d) := by
  cases h with
  | failed hbefore hhere hview =>
      exact .failed (List.forall_mem_cons.mpr ⟨hd, hbefore⟩) hhere hview
  | done hbefore hreplaced => exact .done (List.forall_mem_cons.mpr ⟨hd, hbefore⟩) hreplaced

section
variable (hu : ready.Unused t) (hl : LeadsTo ready temporary at_ t)
  (ht : t ∉ Path.pieces path.bytes)
include hu hl ht

theorem ends_giveUp (h : Drafted ready at_ t x d) (cause : StoreError) :
    Ends ready path document (giveUp temporary cause d) := by
  have hlast := h.remove hl
  have hd : SameEnd path ready d := h.seek_eq hu ht
  have hbefore : ∀ m ∈ [d], SameEnd path ready m := by simpa using hd
  exact .failed hbefore hlast.here (hlast.view_eq hu)

theorem ends_replaceBy {executable : Bool}
    (h : Drafted ready at_ t (some (.file document executable)) d) :
    Ends ready path document (replaceBy obstacle temporary path d) := by
  have hd : SameEnd path ready d := h.seek_eq hu ht
  have hfailed : ∀ e, Ends ready path document
      ((giveUp temporary (.notReplaced path e) d).behind d) :=
    fun e => (ends_giveUp hu hl ht h _).behind hd
  unfold replaceBy attempt
  cases obstacle.fails .replace with
  | some e => exact hfailed e
  | none =>
      dsimp only
      rcases h.move hu hl ht with ⟨e, he⟩ | ⟨moved, hmove, hreplaced⟩
      · rw [he]
        exact hfailed e
      · rw [hmove]
        have hbefore : ∀ m ∈ [d], SameEnd path ready m := by simpa using hd
        exact .done hbefore hreplaced

theorem ends_writeTo (h : Drafted ready at_ t x d) :
    Ends ready path document (writeTo obstacle folder temporary path document d) := by
  have hbegun : ∃ y, Drafted ready at_ t y
      (d.writeFile temporary (document.take obstacle.written)).2 := by
    rcases h.writeFile hl (document.take obstacle.written) with
      ⟨e, he⟩ | ⟨mode, written, hw, hdraft⟩
    · exact ⟨x, by rwa [he]⟩
    · exact ⟨_, by rwa [hw]⟩
  obtain ⟨y, hbegun⟩ := hbegun
  unfold writeTo
  generalize (d.writeFile temporary (document.take obstacle.written)).2 = begun at hbegun
  have hfailed : ∀ e z full, Drafted ready at_ t z full → Ends ready path document
      (((giveUp temporary (.io folder e) full).behind begun).behind d) :=
    fun e z full hfull => ((ends_giveUp hu hl ht hfull _).behind (hbegun.seek_eq hu ht)).behind
      (h.seek_eq hu ht)
  unfold attempt
  cases obstacle.fails .write with
  | some e => exact hfailed e y begun hbegun
  | none =>
      dsimp only
      rcases hbegun.writeFile hl document with ⟨e, he⟩ | ⟨mode, full, hw, hfull⟩
      · rw [he]
        exact hfailed e y begun hbegun
      · rw [hw]
        dsimp only
        cases obstacle.fails .sync with
        | some e => exact hfailed e _ full hfull
        | none =>
            exact ((ends_replaceBy hu hl ht hfull).behind (hbegun.seek_eq hu ht)).behind
              (h.seek_eq hu ht)

end

/-- What a name of a temporary file that is not taken is good for. -/
theorem draft_of_not_taken {n : Nat} (h : temporaryName n ∉
      ready.words ++ Path.pieces folder.bytes ++ Path.pieces path.bytes) :
    ready.Unused (temporaryName n) ∧ Names (temporaryName n) (folder.child (temporaryName n)) ∧
      temporaryName n ∉ Path.pieces path.bytes := by
  simp only [List.mem_append, not_or] at h
  obtain ⟨⟨hwords, hfolder⟩, hpath⟩ := h
  obtain ⟨rest, hrest⟩ := temporaryName_cons n
  refine ⟨⟨?_, ?_, hwords⟩, ?_, hpath⟩
  · simp [hrest, IsIdle]
  · simp [hrest, Path.dot]
  · obtain ⟨front, hpieces, hfront⟩ := Path.pieces_child folder (slash_not_mem_temporaryName n)
    refine ⟨front, hpieces, fun hmem => hfolder ?_⟩
    rcases hfront with hfront | hfront <;> simp [hfront, hmem]

theorem temporaryIn_spec (obstacle : Obstacle) (ready : Disk) (folder path : Path) :
    ∃ t, ready.Unused t ∧ Names t (temporaryIn obstacle ready folder path) ∧
      t ∉ Path.pieces path.bytes := by
  have hfree := unusedName_not_mem
    (ready.words ++ Path.pieces folder.bytes ++ Path.pieces path.bytes) obstacle.drawn
  obtain ⟨n, hn⟩ := unusedName_eq
    (ready.words ++ Path.pieces folder.bytes ++ Path.pieces path.bytes) obstacle.drawn
  rw [hn] at hfree
  rw [temporaryIn, hn]
  exact ⟨temporaryName n, draft_of_not_taken hfree⟩

theorem ends_savingIn (obstacle : Obstacle) (s : Store) (folder path : Path) (ready : Disk) :
    Ends ready path s.document (s.savingIn obstacle folder path ready) := by
  obtain ⟨t, hu, hnames, ht⟩ := temporaryIn_spec obstacle ready folder path
  have hself : SameEnd path ready ready := fun _ => rfl
  have hbefore : ∀ m ∈ [ready], SameEnd path ready m := by simpa using hself
  have hfailed : ∀ cause, Ends ready path s.document ⟨[ready, ready], .error cause⟩ :=
    fun cause => .failed hbefore rfl rfl
  unfold savingIn attempt
  cases obstacle.fails .makeTemporary with
  | some e => exact hfailed _
  | none =>
      dsimp only
      rcases Disk.seek_draft hu hnames with ⟨e, he⟩ | ⟨at_, hfolder, hseek⟩
      · -- The path of the temporary file is refused, so the disk stays.
        rcases Disk.writeFile_cases ready (temporaryIn obstacle ready folder path) [] with
          ⟨e', he'⟩ | ⟨spot, _, _, _, hspot, -⟩
        · rw [he']
          exact hfailed _
        · rw [he [] none ready true (hu.drafted_self [])] at hspot
          cases hspot
      · have hl : LeadsTo ready (temporaryIn obstacle ready folder path) at_ t := ⟨hfolder, hseek⟩
        rcases (hu.drafted_self at_).writeFile hl [] with ⟨e, he⟩ | ⟨mode, opened, hw, hopened⟩
        · rw [he]
          exact hfailed _
        · rw [hw]
          exact (ends_writeTo hu hl ht hopened).behind hself

/-! ## What can be read -/

/-- The document has taken the place of the link at the end of a path.  The path had led through
the link to a directory, its own, so there was no document, and it leads nowhere any more. -/
structure Supplants (first : Disk) (path : Path) (document : Bytes) (d : Disk) : Prop where
  before : first.contents path = .error .isDirectory ∨ first.contents path = .error .tooManyLinks
  placed : ∃ place target executable,
    (first.createFolders (folderOf path)).2.seek false path = .ok (.found place (.link target)) ∧
      d.view place = some (.file document executable)
  after : d.contents path = .error .notDirectory

/-- The document under a path on a disk that a save passes. -/
structure Reads (first : Disk) (path : Path) (document : Bytes) (d : Disk) : Prop where
  /-- What is read under the path are the old bytes or the new ones, unless they are in the place
  of a link. -/
  old_or_new : Steady first path → d.contents path = first.contents path ∨
    d.contents path = .ok document ∨ Supplants first path document d
  /-- A file that the path leads to is the new one, or was there before. -/
  whole : ∀ place bytes executable,
    d.seek true path = .ok (.found place (.file bytes executable)) →
      bytes = document ∨ first.view place = some (.file bytes executable)

/-- What a save may do to a disk on which it fails. -/
structure Intact (first last : Disk) (path : Path) : Prop where
  /-- No file is changed, taken away or left behind, though directories may be new. -/
  grown : Grown first last
  same : Steady first path → last.contents path = first.contents path
  unchanged : first.isFolder (folderOf path) = true → last.view = first.view

theorem Intact.refl (first : Disk) (path : Path) : Intact first first path :=
  ⟨.refl first, fun _ => rfl, fun _ => rfl⟩

theorem intact_createFolders (disk : Disk) (path : Path) :
    Intact disk (disk.createFolders (folderOf path)).2 path ∧
      ∀ m ∈ disk.foldersPassed (folderOf path), Intact disk m path := by
  obtain ⟨hgrown, hpassed⟩ := Disk.grown_createFolders disk (folderOf path)
  have hstill : disk.isFolder (folderOf path) = true →
      (disk.createFolders (folderOf path)).2.view = disk.view ∧
        ∀ m ∈ disk.foldersPassed (folderOf path), m.view = disk.view := by
    intro hfolder
    obtain ⟨hcreate, hnone⟩ := Disk.createFolders_of_isFolder hfolder
    rw [hcreate, hnone]
    exact ⟨rfl, by simp⟩
  exact ⟨⟨hgrown, fun h => h.contents_eq.1, fun h => (hstill h).1⟩, fun m hm =>
    ⟨hpassed m hm, fun h => h.contents_eq.2 m hm, fun h => (hstill h).2 m hm⟩⟩

/-- A path that led through the link which a document has replaced led to a directory. -/
theorem contents_of_leadsAway (h : View.LeadsAway (d.seek true path)) :
    d.contents path = .error .isDirectory ∨ d.contents path = .error .tooManyLinks := by
  rw [Disk.contents_eq]
  rcases h with hmany | ⟨place, hfolder⟩
  · exact .inr (by rw [hmany]; rfl)
  · exact .inl (by rw [hfolder]; rfl)

/-- A document that has replaced what was there is read, or is in the place of a link. -/
theorem reads_of_replaced {first : Disk}
    (hd : Replaced (first.createFolders (folderOf path)).2 d path document) :
    Reads first path document d := by
  have hready := (intact_createFolders first path).1
  obtain ⟨spot, new, mode, hseek, hends, -, hview⟩ := hd.ends
  refine ⟨fun hsteady => .inr ?_, fun place bytes executable hthere => ?_⟩
  · refine hd.contents_cases.imp_right fun ⟨hstuck, haway, place, target, hlink⟩ => ?_
    have hbefore := contents_of_leadsAway haway
    rw [hready.same hsteady] at hbefore
    rw [hlink] at hseek
    obtain rfl : Spot.found place (.link target) = spot := Except.ok.inj hseek
    obtain rfl : place = new := hends
    exact ⟨hbefore, ⟨place, target, mode, hlink, by rw [hview, View.set_same]⟩, hstuck⟩
  · have hbytes : d.view place = some (.file bytes executable) := Disk.shows_of_seek hthere
    rw [hview] at hbytes
    by_cases hnew : place = new
    · rw [hnew, View.set_same] at hbytes
      cases hbytes
      exact .inl rfl
    · rw [View.set_other hnew] at hbytes
      exact .inr (hready.grown.view_file hbytes)

/-- A save is all or nothing: in every state it passes the document has its old bytes or its new
ones, and when it has failed nothing is left of it. -/
structure AllOrNothing (first : Disk) (path : Path) (document : Bytes) (s : Saving) : Prop where
  reads : ∀ d ∈ s.passed, Reads first path document d
  failed : ∀ cause, s.outcome = .error cause → Intact first (s.disk first) path

theorem getLast?_disk {before : List Disk} {last first : Disk} {outcome : Except StoreError Unit} :
    Saving.disk ⟨before ++ [last], outcome⟩ first = last := by
  simp [Saving.disk]

/-- The last disk of a failed save is as intact as the one on which it had its directory. -/
theorem Intact.of_view {first last : Disk} (h : Intact first ready path)
    (hhere : last.here = ready.here) (hview : last.view = ready.view) : Intact first last path := by
  have hseek : SameEnd path ready last := by
    intro followLast
    unfold Disk.seek Disk.start
    rw [hhere, hview]
  refine ⟨⟨hhere.trans h.grown.here, ?_, ?_⟩, ?_, ?_⟩
  · rw [hview]
    exact h.grown.kept
  · rw [hview]
    exact h.grown.added
  · rw [hseek.contents_eq]
    exact h.same
  · rw [hview]
    exact h.unchanged

/-- The path leads where it led on the first disk, or on one with new directories. -/
def Still (first : Disk) (path : Path) (d : Disk) : Prop :=
  ∃ grown, Intact first grown path ∧ SameEnd path grown d

theorem Intact.still {first : Disk} (h : Intact first d path) : Still first path d :=
  ⟨d, h, fun _ => rfl⟩

theorem Still.contents_eq {first : Disk} (h : Still first path d) (hsteady : Steady first path) :
    d.contents path = first.contents path := by
  obtain ⟨grown, hgrown, hsame⟩ := h
  rw [hsame.contents_eq, hgrown.same hsteady]

theorem Still.reads {first : Disk} (h : Still first path d) : Reads first path document d := by
  refine ⟨fun hsteady => .inl (h.contents_eq hsteady), fun place bytes executable hseek => ?_⟩
  obtain ⟨grown, hgrown, hsame⟩ := h
  rw [hsame true] at hseek
  exact .inr (hgrown.grown.view_file (Disk.shows_of_seek hseek))

/-- How a save goes: it fails and leaves an intact disk, or its last state is the first one in
which the document is replaced. -/
inductive Course (first : Disk) (path : Path) (document : Bytes) : Saving → Prop where
  | failed {passed : List Disk} {cause : StoreError} :
      (∀ d ∈ passed, Still first path d) →
      Intact first (Saving.disk ⟨passed, .error cause⟩ first) path →
      Course first path document ⟨passed, .error cause⟩
  | done {before : List Disk} {last : Disk} :
      (∀ d ∈ before, Still first path d) →
      Replaced (first.createFolders (folderOf path)).2 last path document →
      Course first path document ⟨before ++ [last], .ok ()⟩

theorem course_of_intact {first : Disk} {passed : List Disk} {cause : StoreError}
    (h : ∀ d ∈ passed, Intact first d path) :
    Course first path document ⟨passed, .error cause⟩ := by
  refine .failed (fun d hd => (h d hd).still) ?_
  unfold Saving.disk
  cases hend : passed.getLast? with
  | none => exact .refl first path
  | some last => exact h last (List.mem_of_getLast? hend)

theorem course_savingUnder (obstacle : Obstacle) (s : Store) (disk : Disk) (path : Path) :
    Course disk path s.document (s.savingUnder obstacle disk path) := by
  obtain ⟨hready, hmade⟩ := intact_createFolders disk path
  have hfirst : ∀ m ∈ disk :: disk.foldersPassed (folderOf path), Intact disk m path :=
    List.forall_mem_cons.mpr ⟨.refl disk path, hmade⟩
  unfold savingUnder
  cases obstacle.fails .makeFolder with
  | some e =>
      refine course_of_intact (List.forall_mem_cons.mpr ⟨.refl disk path, fun m hm => ?_⟩)
      exact hmade m (List.mem_of_mem_take hm)
  | none =>
      dsimp only
      cases hcreate : disk.createFolders (folderOf path) with
      | mk outcome ready =>
          rw [hcreate] at hready
          cases outcome with
          | error e =>
              refine course_of_intact fun m hm => ?_
              rcases List.mem_append.mp hm with hm | hm
              · exact hfirst m hm
              · rwa [List.mem_singleton.mp hm]
          | ok =>
              have hsame : ∀ {before : List Disk}, (∀ d ∈ before, SameEnd path ready d) →
                  ∀ d ∈ disk :: disk.foldersPassed (folderOf path) ++ before,
                    Still disk path d := by
                intro before hsame d hd
                rcases List.mem_append.mp hd with hd | hd
                · exact (hfirst d hd).still
                · exact ⟨ready, hready, hsame d hd⟩
              dsimp only
              have hends := ends_savingIn obstacle s (folderOf path) path ready
              generalize s.savingIn obstacle (folderOf path) path ready = saving at hends
              cases hends with
              | failed hpassed hhere hview =>
                  have hback := hready.of_view hhere hview
                  simp only [Saving.after, ← List.append_assoc]
                  refine .failed (fun d hd => ?_) (by rwa [getLast?_disk])
                  rcases List.mem_append.mp hd with hd | hd
                  · exact hsame hpassed d hd
                  · rw [List.mem_singleton.mp hd]
                    exact hback.still
              | done hpassed hreplaced =>
                  simp only [Saving.after, ← List.append_assoc]
                  exact .done (hsame hpassed) (by rwa [hcreate])

theorem allOrNothing_savingUnder (obstacle : Obstacle) (s : Store) (disk : Disk) (path : Path) :
    AllOrNothing disk path s.document (s.savingUnder obstacle disk path) := by
  have hcourse := course_savingUnder obstacle s disk path
  generalize s.savingUnder obstacle disk path = saving at hcourse
  cases hcourse with
  | failed hpassed hintact =>
      exact ⟨fun d hd => (hpassed d hd).reads, fun _ _ => hintact⟩
  | done hpassed hreplaced =>
      refine ⟨fun d hd => ?_, fun _ h => by cases h⟩
      rcases List.mem_append.mp hd with hd | hd
      · exact (hpassed d hd).reads
      · rw [List.mem_singleton.mp hd]
        exact reads_of_replaced hreplaced

end Store

/-! ## Scans and removals -/

namespace Engine

open Store (Intact Obstacle)

variable {e : Engine} {obstacle : Obstacle} {disk last : Disk} {cause : ScanError}

theorem intact_saveStore {store : Store}
    (h : (e.saveStore obstacle store disk).value = (.error cause, last)) :
    Intact disk last e.storePath := by
  have hsave := Store.allOrNothing_savingUnder obstacle store disk e.storePath
  unfold saveStore Store.saveUnder at h
  generalize store.savingUnder obstacle disk e.storePath = saving at h hsave
  cases houtcome : saving.outcome with
  | ok => simp [houtcome] at h
  | error cause =>
      simp only [houtcome, Noted.value_pure, Prod.mk.injEq] at h
      obtain ⟨-, rfl⟩ := h
      exact hsave.failed cause houtcome

theorem intact_revise {α : Type} {change : Store → α × Store}
    (h : (e.revise obstacle disk change).value = (.error cause, last)) :
    Intact disk last e.storePath := by
  simp only [revise, Noted.value_bind] at h
  split at h
  · cases h
    exact .refl disk _
  · rename_i store _
    simp only [Noted.value_bind] at h
    split at h
    · cases h
    · rename_i hsave
      cases h
      exact intact_saveStore hsave

theorem intact_scanAs {root : Path} {project : String}
    (h : (e.scanAs obstacle disk root project).value = (.error cause, last)) :
    Intact disk last e.storePath := by
  simp only [scanAs, Noted.value_bind] at h
  split at h
  · cases h
    exact .refl disk _
  · exact intact_revise h

/-- **Saving is all or nothing.**  Whatever fails in a save and wherever it is cut off, a steady
document has its old bytes or its new ones, and no other file comes to be read under its path; and
a save, a scan or a removal that reports an error has left a steady document as it was, and under
every path it has changed no file and left none behind. -/
theorem all_or_nothing (e : Engine) (obstacle : Obstacle) (disk : Disk) (root : Path)
    (name : String) :
    (∀ (s : Store) (path : Path),
      Store.AllOrNothing disk path s.document (s.savingUnder obstacle disk path)) ∧
    (∀ cause, (e.runScanUnder obstacle disk root name).value.outcome = .error cause →
      Intact disk (e.runScanUnder obstacle disk root name).value.disk e.storePath) ∧
    (∀ cause, (e.removeProjectUnder obstacle disk name).value.outcome = .error cause →
      Intact disk (e.removeProjectUnder obstacle disk name).value.disk e.storePath) := by
  refine ⟨fun s path => Store.allOrNothing_savingUnder obstacle s disk path, fun cause h => ?_,
    fun cause h => ?_⟩
  · have hscan : (e.scanAs obstacle disk root (nameOf root name)).value =
        (.error cause, (e.runScanUnder obstacle disk root name).value.disk) :=
      Prod.ext h rfl
    exact intact_scanAs hscan
  · revert h
    simp only [removeProjectUnder, Noted.value_bind]
    split
    · intro _
      exact .refl disk _
    · split
      · intro h
        cases h
      · simp only [Noted.value_bind]
        split
        · rename_i hsave
          intro _
          exact intact_saveStore hsave
        · intro h
          cases h

/-! ## A disk that is full -/

/-- An engine without readers. -/
def blindEngine : Engine :=
  .make (.defaults (.ofString "data")) ⟨[]⟩ fun _ _ _ _ => .exited 1 [] []

/-- The document of a store with one project that nothing was found in. -/
def filedDocument : Bytes :=
  (Store.empty.replaceProject "q" []).2.document

/-- A working directory with this document and a directory to scan. -/
def filedDisk : Disk :=
  ⟨.folder (Text.bytesOf "data") (.file (Text.bytesOf "todos.json") filedDocument false .empty)
    (.folder (Text.bytesOf "p") .empty .empty), []⟩

/-- No more than nine bytes find room. -/
def nineBytes : Obstacle :=
  ⟨fun stage => if stage = .write then some .noSpace else none, 0, 9, 0⟩

/-- The draft of a scan is broken off behind nine bytes; the document is what it was all along. -/
theorem all_or_nothing_full :
    (blindEngine.runScanUnder nineBytes filedDisk (.ofString "p") "p").value.outcome =
        .error (.store (.io (.ofString "data") .noSpace)) ∧
      (blindEngine.runScanUnder nineBytes filedDisk (.ofString "p") "p").value.disk.contents
        blindEngine.storePath = .ok filedDocument ∧
      (∃ d ∈ (Store.empty.savingUnder nineBytes filedDisk blindEngine.storePath).passed,
        d.contents (.ofString "data/.todowatch-0.tmp") = .ok (Store.empty.document.take 9)) ∧
      ∀ d ∈ (Store.empty.savingUnder nineBytes filedDisk blindEngine.storePath).passed,
        d.contents blindEngine.storePath = .ok filedDocument ∨
          d.contents blindEngine.storePath = .ok Store.empty.document := by
  have hthere : filedDisk.contents blindEngine.storePath = .ok filedDocument := by decide +kernel
  have hsteady : Store.Steady filedDisk blindEngine.storePath := by
    intro hnone
    rw [hthere] at hnone
    cases hnone
  have houtcome : (blindEngine.runScanUnder nineBytes filedDisk (.ofString "p") "p").value.outcome =
      .error (.store (.io (.ofString "data") .noSpace)) := by decide +kernel
  obtain ⟨hsaves, hscan, -⟩ := all_or_nothing blindEngine nineBytes filedDisk (.ofString "p") "p"
  refine ⟨houtcome, ?_, by decide +kernel, fun d hd => ?_⟩
  · rw [(hscan _ houtcome).same hsteady, hthere]
  · have hreads := ((hsaves .empty blindEngine.storePath).reads d hd).old_or_new hsteady
    rw [hthere] at hreads
    rcases hreads with hold | hnew | hsupplants
    · exact .inl hold
    · exact .inr hnew
    · rcases hsupplants.before with hbefore | hbefore <;> rw [hthere] at hbefore <;> cases hbefore

/-! ## A path that opens -/

/-- What one would like to say of a save under every path: when it has failed, the document is
what it was. -/
def Restores (s : Store) (obstacle : Obstacle) (disk : Disk) (path : Path) : Prop :=
  ∀ cause, (s.saveUnder obstacle disk path).1 = .error cause →
    (s.saveUnder obstacle disk path).2.contents path = disk.contents path

/-- A path through a directory that is missing. -/
def detour : Path :=
  .ofString "x/../t"

/-- A working directory with a directory at the end of the detour. -/
def barredDisk : Disk :=
  ⟨.folder (Text.bytesOf "t") .empty .empty, []⟩

/-- The same with a file. -/
def coveredDisk : Disk :=
  ⟨.file (Text.bytesOf "t") (Text.bytesOf "old") false .empty, []⟩

/-- Before it fails a save makes the missing directory.  So the path of a document that was
missing leads on afterwards, to a directory or to a file. -/
theorem not_restored_behind_detour :
    ¬ Restores .empty .none barredDisk detour ∧ ¬ Restores .empty nineBytes coveredDisk detour := by
  constructor
  · intro hrestores
    have hbefore : barredDisk.contents detour = .error .notFound := by decide +kernel
    have houtcome : (Store.empty.saveUnder .none barredDisk detour).1 =
        .error (.notReplaced detour .isDirectory) := by decide +kernel
    have hafter : (Store.empty.saveUnder .none barredDisk detour).2.contents detour =
        .error .isDirectory := by decide +kernel
    have hsame := hrestores _ houtcome
    rw [hbefore, hafter] at hsame
    cases hsame
  · intro hrestores
    have hbefore : coveredDisk.contents detour = .error .notFound := by decide +kernel
    have houtcome : (Store.empty.saveUnder nineBytes coveredDisk detour).1 =
        .error (.io (.ofString "x/..") .noSpace) := by decide +kernel
    have hafter : (Store.empty.saveUnder nineBytes coveredDisk detour).2.contents detour =
        .ok (Text.bytesOf "old") := by decide +kernel
    have hsame := hrestores _ houtcome
    rw [hbefore, hafter] at hsame
    cases hsame

end Engine

end TodoIndex
