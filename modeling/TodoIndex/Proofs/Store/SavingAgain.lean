import TodoIndex.Proofs.Files.Descents
import TodoIndex.Proofs.Files.Words
import TodoIndex.Proofs.Store.Folders
import TodoIndex.Proofs.Store.RoundTrip

/-! # Saving again

A save that nothing hinders, and whose draft can be written, comes down to moving the draft.  It
leaves the name of the draft free, so the next save finds a name that is no longer; and where a
document has its directory and stands in it, the next save puts another one in its place.
-/

namespace TodoIndex

open Text (Bytes)

namespace Disk

variable {d first : Disk} {t : Bytes} {p target : Path} {at_ : List Bytes} {x : Option Entry}

/-- A draft can be written wherever its path leads, and is put there. -/
theorem LeadsTo.writeFile (hl : LeadsTo first p at_ t) (h : Drafted first at_ t x d)
    (content : Bytes) : ∃ executable,
      d.writeFile p content = (.ok (), d.put at_ t (.file content executable)) := by
  have hseek := hl.seek x d true h
  rw [View.arrive, h.view_at] at hseek
  rcases h.draft with rfl | ⟨old, executable, rfl⟩
  · exact ⟨false, by rw [Disk.writeFile, find_of_seek_free hseek]; rfl⟩
  · exact ⟨executable, by simp [Disk.writeFile, find_of_seek_file hseek]⟩

/-- A file that is put where a draft is, is a draft. -/
theorem Drafted.put (hl : LeadsTo first p at_ t) (h : Drafted first at_ t x d) (content : Bytes)
    (executable : Bool) : Drafted first at_ t (some (.file content executable))
      (d.put at_ t (.file content executable)) := by
  have hfolder : d.view at_ = some .aFolder := by
    rw [h.view, View.set_other (by simp), hl.folder]
  have hfree : d.view (at_ ++ [t]) ≠ some .aFolder := by
    rw [h.view_at]
    rcases h.draft with rfl | ⟨old, mode, rfl⟩ <;> simp
  refine ⟨.inr ⟨content, executable, rfl⟩, h.here, ?_⟩
  rw [view_put rfl hfolder hfree, h.view, View.set_set]

theorem endsInName_of_pieces {front : List Bytes} {name : Bytes}
    (hpieces : Path.pieces p.bytes = front ++ [name]) (hidle : ¬ IsIdle name)
    (hup : name ≠ [Path.dot, Path.dot]) : endsInName p = true ∧ endsInSlash p = false := by
  simp only [IsIdle, not_or] at hidle
  constructor
  · rw [endsInName, hpieces, List.reverse_concat, List.dropWhile_cons_of_neg (by simp [hidle.1])]
    simp [hidle.2, hup]
  · refine Bool.eq_false_iff.mpr fun hslash => hidle.1 ?_
    obtain ⟨init, hinit⟩ := List.getLast?_eq_some_iff.mp (eq_of_beq hslash)
    rw [hinit, Path.pieces_append_slash] at hpieces
    exact (List.append_inj' hpieces rfl).2 |> List.cons.inj |>.1.symm

/-- Whether a file can be moved to a path, by where the path ends. -/
def acceptance (d : Disk) (target : Path) : Except OsError Unit :=
  if target.isEmpty then .error .notFound
  else if endsInName target then
    match d.seek false target with
    | .error e => .error e
    | .ok (.free _ _ slash) => if slash then .error .notDirectory else .ok ()
    | .ok (.found _ there) =>
        if endsInSlash target then .error .notDirectory
        else mayReplace (.file [] false) there
  else .error .busy

/-- A search ends neither at a place nor below it. -/
def ClearOf (old : List Bytes) : Spot → Prop
  | .found place _ => old.isPrefixOf place = false
  | .free place _ _ => old.isPrefixOf place = false

theorem clearOf_of_avoids {spot : Spot} (h : spot.Avoids t) : ClearOf (at_ ++ [t]) spot := by
  have hout : ∀ {place : List Bytes}, t ∉ place → (at_ ++ [t]).isPrefixOf place = false := by
    intro place hplace
    refine Bool.eq_false_iff.mpr fun hprefix => hplace ?_
    exact (List.isPrefixOf_iff_prefix.mp hprefix).subset
      (List.mem_append_right _ List.mem_cons_self)
  cases spot with
  | found place entry => exact hout h
  | free place name slash => exact hout h.1

/-- Moving a file ends as the place that it is moved to has it, unless that is its own place or
below it. -/
theorem move_fst {old : List Bytes} {content : Bytes} {executable : Bool}
    (hsource : d.seek false p = .ok (.found old (.file content executable)))
    (hnamed : endsInName p = true)
    (hclear : ∀ {spot}, d.seek false target = .ok spot → ClearOf old spot) :
    (d.move p target).1 = d.acceptance target := by
  have hthere : p.isEmpty = false := by simp [Path.isEmpty, ne_nil_of_seek hsource]
  unfold Disk.move acceptance
  simp only [hthere, hnamed, Bool.false_or, Bool.true_and]
  split
  · rfl
  split
  · rw [moveFound, find_of_seek_file hsource, ← find_map_bare]
    cases hend : d.find false target with
    | error e => rfl
    | ok spot =>
        have hseek := seek_of_find hend
        cases spot with
        | free new name slash =>
            have hout : old.isPrefixOf new = false := hclear hseek
            cases slash <;> simp [hout, Except.map, Spot.bare, Entry.kind]
        | found new there =>
            have hout : old.isPrefixOf new = false := hclear hseek
            have hne : old ≠ new := by
              rintro rfl
              rw [List.isPrefixOf_iff_prefix.mpr (List.prefix_refl _)] at hout
              cases hout
            have hroot : new.getLast? = none → ∃ inside, there = .folder inside := by
              intro hnone
              obtain rfl := List.getLast?_eq_none_iff.mp hnone
              have hshows : d.view [] = some there.bare := shows_of_seek hseek
              rw [(isTree_view d).top] at hshows
              exact Entry.bare_eq_aFolder.mp (Option.some.inj hshows).symm
            simp only [hne, hout, if_false, Bool.false_eq_true, Except.map, Spot.bare, Entry.kind]
            cases hslash : endsInSlash target with
            | true => simp
            | false =>
                cases hlast : new.getLast? with
                | none =>
                    obtain ⟨inside, rfl⟩ := hroot hlast
                    simp [mayReplace, Entry.bare]
                | some name => cases there <;> simp [mayReplace, Entry.bare]
  · rfl

/-- Moving a draft ends as the place that it is moved to has it. -/
theorem Drafted.move_fst (hu : first.Unused t) (hl : LeadsTo first p at_ t) (hnames : Names t p)
    {content : Bytes} {executable : Bool}
    (h : Drafted first at_ t (some (.file content executable)) d)
    (ht : t ∉ Path.pieces target.bytes) : (d.move p target).1 = first.acceptance target := by
  obtain ⟨front, hpieces, -⟩ := hnames
  have htarget : d.seek false target = first.seek false target := h.seek_eq hu ht false
  have hsame : d.acceptance target = first.acceptance target := by
    simp only [acceptance, htarget]
  rw [← hsame]
  refine Disk.move_fst (h.seek_self hl)
    (endsInName_of_pieces hpieces hu.not_idle hu.not_up).1 fun hseek => ?_
  exact clearOf_of_avoids (seek_avoids hu ht (htarget.symm.trans hseek))

/-- A file can be moved to the place of a file. -/
theorem acceptance_of_file {place : List Bytes} {old : Bytes} {mode : Bool}
    (h : d.seek false target = .ok (.found place (.file old mode))) :
    d.acceptance target = .ok () := by
  have hnonempty : target.isEmpty = false := by simp [Path.isEmpty, ne_nil_of_seek h]
  obtain ⟨front, name, hpieces, hname⟩ : ∃ front name,
      Path.pieces target.bytes = front ++ [name] ∧ IsName name := by
    have hview : d.view place = some (.file old mode) := shows_of_seek h
    have hspot : (Spot.found place (.file old mode)).EndsAt place := rfl
    exact View.name_of_ends hspot (by simp [hview]) (seek_eq_ok_iff.mp h).2
  obtain ⟨hends, hslash⟩ := endsInName_of_pieces hpieces hname.not_idle hname.not_up
  simp [acceptance, hnonempty, hends, h, hslash, mayReplace]

/-- A draft can be moved to the place of a file. -/
theorem Drafted.move_onto (hu : first.Unused t) (hl : LeadsTo first p at_ t) (hnames : Names t p)
    {content old : Bytes} {executable mode : Bool} {new : List Bytes}
    (h : Drafted first at_ t (some (.file content executable)) d)
    (ht : t ∉ Path.pieces target.bytes)
    (hthere : first.seek false target = .ok (.found new (.file old mode))) :
    ∃ moved, d.move p target = (.ok (), moved) := by
  have hmoved := h.move_fst hu hl hnames ht
  rw [acceptance_of_file hthere] at hmoved
  exact ⟨_, Prod.ext hmoved rfl⟩

/-- After a draft was moved its name stands nowhere. -/
theorem Drafted.nowhere_moved (hu : first.Unused t) (hl : LeadsTo first p at_ t) {content : Bytes}
    {executable : Bool} {moved : Disk}
    (h : Drafted first at_ t (some (.file content executable)) d)
    (hd : d = first.put at_ t (.file content executable)) (ht : t ∉ Path.pieces target.bytes)
    (hmove : d.move p target = (.ok (), moved)) : t ∉ moved.words := by
  have havoids : ∀ {spot}, d.seek false target = .ok spot → spot.Avoids t :=
    fun hseek => seek_avoids hu ht ((h.seek_eq hu ht false).symm.trans hseek)
  rcases move_ok_cases (h.seek_self hl) hmove with ⟨-, hself⟩ | ⟨init, name, rfl, hmoved⟩
  · exact absurd (List.mem_append_right _ List.mem_cons_self) (havoids hself)
  · obtain ⟨spot, hseek, hends⟩ := hmoved.ends
    intro hword
    rcases words_put hword with rfl | hword | hword
    · exact (havoids hseek).not_mem_end hends (List.mem_append_right _ List.mem_cons_self)
    · cases hword
    · rw [hd] at hword
      exact hu.nowhere (words_eraseAt_put hword)

end Disk

namespace Store

open Disk (Drafted LeadsTo Unused Names Replaced)

variable {ready disk saved : Disk} {path folder temporary : Path} {t : Bytes} {at_ : List Bytes}
  {x : Option Entry} {s : Store}

theorem attempt_none (stage : Stage) (d : Disk) (step : Disk → Except OsError Unit × Disk) :
    attempt .none stage d step = step d := rfl

/-- A save that nothing hinders comes down to moving the draft with the document. -/
theorem savingIn_none (hu : ready.Unused t)
    (hl : LeadsTo ready (temporaryIn .none ready folder path) at_ t) :
    ∃ earlier full executable, full = ready.put at_ t (.file s.document executable) ∧
      Drafted ready at_ t (some (.file s.document executable)) full ∧
      s.savingIn .none folder path ready =
        (replaceBy .none (temporaryIn .none ready folder path) path full).after earlier := by
  have hbare := hu.drafted_self at_
  obtain ⟨first, hopened⟩ := hl.writeFile hbare []
  obtain ⟨second, hbegun⟩ := hl.writeFile (hbare.put hl [] first) (s.document.take 0)
  rw [Disk.put_put] at hbegun
  obtain ⟨third, hfull⟩ := hl.writeFile (hbare.put hl (s.document.take 0) second) s.document
  rw [Disk.put_put] at hfull
  refine ⟨[ready, ready.put at_ t (.file [] first),
    ready.put at_ t (.file (s.document.take 0) second)], _, third, rfl,
    hbare.put hl s.document third, ?_⟩
  have hwritten : Obstacle.none.written = 0 := rfl
  have hsynced : Obstacle.none.fails .sync = none := rfl
  simp only [savingIn, writeTo, attempt_none, hwritten, hsynced, hopened, hbegun, hfull]
  rfl

/-- A save that nothing hinders succeeds exactly if its draft can be moved. -/
theorem saveUnder_none (hcreate : disk.createFolders (folderOf path) = (.ok (), ready))
    (hu : ready.Unused t)
    (hl : LeadsTo ready (temporaryIn .none ready (folderOf path) path) at_ t) :
    ∃ full executable, full = ready.put at_ t (.file s.document executable) ∧
      Drafted ready at_ t (some (.file s.document executable)) full ∧
      ∀ last, s.saveUnder .none disk path = (.ok (), last) ↔
        full.move (temporaryIn .none ready (folderOf path) path) path = (.ok (), last) := by
  obtain ⟨earlier, full, executable, hfull, hdraft, hsaving⟩ := savingIn_none (s := s) hu hl
  refine ⟨full, executable, hfull, hdraft, fun last => ?_⟩
  have hmade : Obstacle.none.fails .makeFolder = none := rfl
  rw [saveUnder, savingUnder]
  simp only [hmade, hcreate, hsaving, replaceBy, attempt_none]
  cases full.move (temporaryIn .none ready (folderOf path) path) path with
  | mk outcome moved =>
      cases outcome with
      | error e => simp [giveUp, Saving.behind, Saving.after]
      | ok =>
          have hpassed : disk :: disk.foldersPassed (folderOf path) ++ (earlier ++ [full, moved]) =
              disk :: disk.foldersPassed (folderOf path) ++ (earlier ++ [full]) ++ [moved] := by
            simp
          simp only [Saving.after, hpassed, getLast?_disk, Prod.mk.injEq, true_and]

/-! ## The next save -/

/-- A name that a draft has had and that is free again. -/
structure Reusable (saved : Disk) (path : Path) (n : Nat) : Prop where
  allowed : Disk.refusal? ((folderOf path).child (temporaryName n)) = none
  short : (temporaryName n).length ≤ Disk.maxName
  free : temporaryName n ∉
    saved.words ++ Path.pieces (folderOf path).bytes ++ Path.pieces path.bytes

/-- A draft that can be made leads to its name in a directory. -/
theorem leadsTo_of_writeFile {temporary : Path} {opened : Disk} (hu : ready.Unused t)
    (hnames : Names t temporary) (h : ready.writeFile temporary [] = (.ok (), opened)) :
    ∃ at_, LeadsTo ready temporary at_ t := by
  rcases Disk.seek_draft hu hnames with ⟨e, he⟩ | ⟨at_, hfolder, hseek⟩
  · rcases Disk.writeFile_cases ready temporary [] with ⟨e', he'⟩ | ⟨spot, _, _, _, hspot, -⟩
    · rw [he'] at h
      cases h
    · rw [he [] none ready true (hu.drafted_self [])] at hspot
      cases hspot
  · exact ⟨at_, hfolder, hseek⟩

theorem leadsTo_of_save (hcreate : disk.createFolders (folderOf path) = (.ok (), ready))
    (hu : ready.Unused t) (hnames : Names t (temporaryIn .none ready (folderOf path) path))
    (h : s.saveUnder .none disk path = (.ok (), saved)) :
    ∃ at_, LeadsTo ready (temporaryIn .none ready (folderOf path) path) at_ t := by
  have hmade : Obstacle.none.fails .makeFolder = none := rfl
  rw [saveUnder, savingUnder] at h
  simp only [hmade, hcreate, savingIn, attempt_none] at h
  cases hopen : ready.writeFile (temporaryIn .none ready (folderOf path) path) [] with
  | mk outcome opened =>
      cases outcome with
      | error e =>
          rw [hopen] at h
          cases h
      | ok => exact leadsTo_of_writeFile hu hnames hopen

theorem createFolders_of_save (h : s.saveUnder .none disk path = (.ok (), saved)) :
    ∃ ready, disk.createFolders (folderOf path) = (.ok (), ready) := by
  have hmade : Obstacle.none.fails .makeFolder = none := rfl
  rw [saveUnder, savingUnder] at h
  simp only [hmade] at h
  cases hcreate : disk.createFolders (folderOf path) with
  | mk outcome ready =>
      rw [hcreate] at h
      cases outcome with
      | error e => cases h
      | ok => exact ⟨ready, rfl⟩

/-- A name that a draft can be written under can be used again where it stands nowhere. -/
theorem Reusable.of_draft {n : Nat} (hu : ready.Unused (temporaryName n))
    (hnames : Names (temporaryName n) ((folderOf path).child (temporaryName n)))
    (hl : LeadsTo ready ((folderOf path).child (temporaryName n)) at_ (temporaryName n))
    (hfree : temporaryName n ∉
      saved.words ++ Path.pieces (folderOf path).bytes ++ Path.pieces path.bytes) :
    Reusable saved path n := by
  have harrive := hl.seek none ready false (hu.drafted_self at_)
  rw [View.arrive, hu.view_none] at harrive
  obtain ⟨hallowed, harrive⟩ := Disk.seek_eq_ok_iff.mp harrive
  refine ⟨hallowed, ?_, hfree⟩
  have hspot : (Spot.free at_ (temporaryName n) false).EndsAt (at_ ++ [temporaryName n]) :=
    ⟨rfl, rfl⟩
  obtain ⟨front, name, hpieces, hname⟩ := View.name_of_ends hspot (by simp [hu.view_none]) harrive
  obtain ⟨other, hother, -⟩ := hnames
  rw [hother] at hpieces
  obtain ⟨-, hsame⟩ := List.append_inj' hpieces rfl
  rw [List.cons.inj hsame |>.1]
  exact hname.short

/-- The name of the draft of a save, and what it is good for. -/
theorem exists_temporaryName (ready : Disk) (path : Path) : ∃ n,
    temporaryIn .none ready (folderOf path) path = (folderOf path).child (temporaryName n) ∧
      temporaryName n ∉
        ready.words ++ Path.pieces (folderOf path).bytes ++ Path.pieces path.bytes := by
  have hfree := unusedName_not_mem (ready.words ++ Path.pieces (folderOf path).bytes ++
    Path.pieces path.bytes) Obstacle.none.drawn
  obtain ⟨n, hn⟩ := unusedName_eq (ready.words ++ Path.pieces (folderOf path).bytes ++
    Path.pieces path.bytes) Obstacle.none.drawn
  rw [hn] at hfree
  exact ⟨n, by rw [temporaryIn, hn], hfree⟩

theorem reusable_of_save (h : s.saveUnder .none disk path = (.ok (), saved)) :
    ∃ n, Reusable saved path n := by
  obtain ⟨ready, hcreate⟩ := createFolders_of_save h
  obtain ⟨n, hchosen, hfree⟩ := exists_temporaryName ready path
  obtain ⟨hu, hnames, ht⟩ := draft_of_not_taken hfree
  have hdraft := hnames
  rw [← hchosen] at hdraft
  obtain ⟨at_, hl⟩ := leadsTo_of_save hcreate hu hdraft h
  obtain ⟨full, executable, hfull, hdrafted, hiff⟩ := saveUnder_none (s := s) hcreate hu hl
  have hgone := hdrafted.nowhere_moved hu hl hfull ht ((hiff saved).mp h)
  rw [hchosen] at hl
  refine ⟨n, .of_draft hu hnames hl ?_⟩
  simp only [List.mem_append, not_or] at hfree ⊢
  exact ⟨⟨hgone, hfree.1.2⟩, hfree.2⟩

theorem isEntryName_temporaryName (n : Nat) : IsEntryName (temporaryName n) := by
  obtain ⟨rest, hrest⟩ := temporaryName_cons n
  refine ⟨?_, ?_, slash_not_mem_temporaryName n⟩
  · simp [hrest, IsIdle]
  · simp [hrest, Path.dot]

/-- A path with a shorter name of its kind is allowed as well. -/
theorem refusal_of_le {m n : Nat} (hle : m ≤ n) (hfolder : folder.bytes ≠ [])
    (h : Disk.refusal? (folder.child (temporaryName n)) = none) :
    Disk.refusal? (folder.child (temporaryName m)) = none := by
  obtain ⟨front, -, hchild⟩ := Path.exists_front hfolder
  have hiff : ∀ k, Disk.refusal? (folder.child (temporaryName k)) = none ↔
      0 ∉ front ∧ front.length + (temporaryName k).length < Disk.maxPath := by
    intro k
    have hzero : (front ++ Path.slash :: temporaryName k).contains 0 = true ↔ 0 ∈ front := by
      simp [zero_not_mem_temporaryName k, Path.slash]
    rw [Disk.refusal?, Path.isEmpty, hchild _ (isEntryName_temporaryName k)]
    by_cases hfront : 0 ∈ front
    · simp [hfront]
    · rw [if_neg (by rwa [hzero]), if_neg (by simp)]
      simp only [List.length_append, List.length_cons, hfront, not_false_eq_true, true_and]
      split <;> simp <;> omega
  rw [hiff] at h ⊢
  exact ⟨h.1, Nat.lt_of_le_of_lt (Nat.add_le_add_left (length_temporaryName_le hle) _) h.2⟩

/-- Where the directory of a path is there and a name can be used again, a draft can be written. -/
theorem Reusable.leadsTo {n : Nat} (h : Reusable saved path n)
    (hfolder : saved.isFolder (folderOf path) = true) :
    ∃ t at_, saved.Unused t ∧ Names t (temporaryIn .none saved (folderOf path) path) ∧
      t ∉ Path.pieces path.bytes ∧
      LeadsTo saved (temporaryIn .none saved (folderOf path) path) at_ t := by
  obtain ⟨m, hle, hchosen⟩ := unusedName_le (by simpa using h.free :
    temporaryName (0 + n) ∉ saved.words ++ Path.pieces (folderOf path).bytes ++
      Path.pieces path.bytes)
  rw [Nat.zero_add] at hchosen
  have hfree := unusedName_not_mem
    (saved.words ++ Path.pieces (folderOf path).bytes ++ Path.pieces path.bytes) 0
  rw [hchosen] at hfree
  obtain ⟨hu, hnames, ht⟩ := draft_of_not_taken hfree
  have hdraft : temporaryIn .none saved (folderOf path) path =
      (folderOf path).child (temporaryName m) :=
    congrArg (folderOf path).child hchosen
  have hallowed := refusal_of_le hle (folderOf_ne_nil path) h.allowed
  obtain ⟨place, hplace⟩ := Disk.isFolder_iff.mp hfolder
  obtain ⟨fewer, hgo⟩ := Disk.seek_child hplace (isEntryName_temporaryName m) hallowed
  have hname : IsName (temporaryName m) :=
    ⟨hu.not_idle, hu.not_up, Nat.le_trans (length_temporaryName_le hle) h.short⟩
  have hl : LeadsTo saved ((folderOf path).child (temporaryName m)) place (temporaryName m) := by
    have hthere : saved.view place = some .aFolder := Disk.shows_of_seek hplace
    have harrive : ∀ followLast, saved.seek followLast ((folderOf path).child (temporaryName m)) =
        .ok (.free place (temporaryName m) false) := by
      intro followLast
      rw [hgo, View.seek_name hname, hu.view_none]
      simp [hthere]
    rcases Disk.seek_draft hu hnames with ⟨e, he⟩ | ⟨at_, hfound, hseek⟩
    · have hrefused := he [] none saved true (hu.drafted_self [])
      rw [harrive] at hrefused
      cases hrefused
    · have hsame := hseek none saved true (hu.drafted_self at_)
      rw [harrive, View.arrive, hu.view_none] at hsame
      cases hsame
      exact ⟨hfound, hseek⟩
  rw [← hdraft] at hl hnames
  exact ⟨temporaryName m, place, hu, hnames, ht, hl⟩

/-- **A save that succeeded can be made again**, of any store, where the directory of its path is
still one. -/
theorem save_again {s : Store} (next : Store) (h : s.saveUnder .none disk path = (.ok (), saved))
    (hfolder : saved.isFolder (folderOf path) = true) :
    ∃ last, next.saveUnder .none saved path = (.ok (), last) := by
  obtain ⟨n, hreusable⟩ := reusable_of_save h
  obtain ⟨t, place, hu, hnames, ht, hl⟩ := hreusable.leadsTo hfolder
  have hcreate := (Disk.createFolders_of_isFolder hfolder).1
  obtain ⟨full, executable, -, hfull, hiff⟩ := saveUnder_none (s := next) hcreate hu hl
  obtain ⟨new, mode, hdocument⟩ := (replaced_of_save h).seek_of_isFolder hfolder
  obtain ⟨last, hmove⟩ := hfull.move_onto hu hl hnames ht (hdocument false)
  exact ⟨last, (hiff last).mpr hmove⟩

end Store

end TodoIndex
