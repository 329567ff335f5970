import TodoIndex.Proofs.Files.Descents
import TodoIndex.Proofs.Store.Sites

/-! # New directories

A directory that has just been created is empty, so the next one on a plain path can be created
in it.  The directory of a document with a plain path is therefore created, with all that are
missing above it, or nothing changes.
-/

namespace TodoIndex

open Text (Bytes)

namespace Path

/-- The directory above a path, if its spelling is no single byte, ends in a component that
counts. -/
theorem endsInStep_of_parent? {p folder : Path} (h : p.parent? = some folder)
    (hlong : 2 ≤ folder.bytes.length) :
    ∃ front last, pieces folder.bytes = front ++ [last] ∧ ¬ IsIdle last := by
  obtain ⟨head, hfolder⟩ : ∃ head, folder.bytes = (trimTail head).reverse := by
    unfold parent? at h
    split at h <;> cases h
    exact ⟨_, rfl⟩
  rw [hfolder, List.length_reverse] at hlong
  rw [hfolder]
  obtain ⟨last, hsplit, hslash, hhead⟩ := split_at_slash (trimTail head)
  have hcounts : ¬ IsIdle last.reverse := by
    match htrimmed : trimTail head, hlong with
    | b :: c :: s, _ =>
        obtain ⟨hb, hbc⟩ := trimTail_head head htrimmed
        rw [htrimmed] at hsplit hhead
        rintro (hnil | hone)
        · obtain rfl : last = [] := by simpa using hnil
          exact hb (hhead b (c :: s) hsplit.symm)
        · obtain rfl : last = [dot] := by simpa using congrArg List.reverse hone
          obtain ⟨rfl, hrest⟩ := List.cons.inj hsplit
          exact hbc ⟨rfl, hhead c s hrest.symm⟩
  cases hdrop : (trimTail head).dropWhile (· != slash) with
  | nil =>
      rw [hdrop, List.append_nil] at hsplit
      refine ⟨[], last.reverse, ?_, hcounts⟩
      rw [hsplit, pieces_eq_singleton (by simpa using hslash), List.nil_append]
  | cons b s =>
      obtain rfl := hhead b s hdrop
      rw [hdrop] at hsplit
      refine ⟨pieces s.reverse, last.reverse, ?_, hcounts⟩
      have hbytes : (trimTail head).reverse = s.reverse ++ slash :: last.reverse := by
        rw [hsplit]
        simp
      have hlast : pieces last.reverse = [last.reverse] :=
        pieces_eq_singleton (by simpa using hslash)
      rw [hbytes, pieces_append_slash, hlast]

end Path

namespace Disk

variable {d made : Disk} {p above : Path} {place idles : List Bytes} {name tail : Bytes}

/-- An empty directory stands at the end of a path. -/
def Fresh (d : Disk) (p : Path) : Prop :=
  ∃ place, d.seek true p = .ok (.found place .aFolder) ∧ ∀ name, d.view (place ++ [name]) = none

theorem createFolder_of_free {slash : Bool} (h : d.seek false p = .ok (.free place name slash)) :
    ∃ made, d.createFolder p = (.ok (), made) :=
  ⟨_, by rw [createFolder, find_of_seek_free h]⟩

theorem isFolder_eq_false (h : ∀ place entry, d.find false p ≠ .ok (.found place entry)) :
    d.isFolder p = false := by
  refine Bool.eq_false_iff.mpr fun hfolder => ?_
  obtain ⟨place, hplace⟩ := isFolder_iff.mp hfolder
  obtain ⟨found, entry, hfound⟩ := find_false_of_seek_true hplace
  exact h found entry hfound

theorem isFolder_root (d : Disk) : d.isFolder ⟨[Path.slash]⟩ = true := by
  have hallowed : refusal? ⟨[Path.slash]⟩ = none := by decide
  refine isFolder_iff.mpr ⟨[], ?_⟩
  rw [seek, hallowed]
  have hpieces : Path.pieces [Path.slash] = [[], []] := by decide
  have hstart : d.start ⟨[Path.slash]⟩ = [] := rfl
  dsimp only
  rw [hpieces, hstart, View.seek_idle (.inl rfl), View.seek_idle (.inl rfl), View.seek_nil,
    if_pos (isTree_view d).top]

/-- A directory that has been created was not there before, and is empty. -/
theorem fresh_of_createFolder (h : d.createFolder p = (.ok (), made)) :
    Fresh made p ∧ d.isFolder p = false := by
  rcases createFolder_cases d p with
    ⟨e, he⟩ | ⟨place, name, slash, other, hseek, hmade, hhere, hview⟩
  · rw [he] at h
    cases h
  rw [hmade] at h
  cases h
  have hnone : d.view (place ++ [name]) = none := (shows_of_seek hseek).2
  have hmore : ∀ at_ entry, d.view at_ = some entry → made.view at_ = some entry := by
    intro at_ entry hat
    rw [hview]
    exact View.set_mono hnone hat
  constructor
  · refine ⟨place ++ [name], ?_, fun next => ?_⟩
    · obtain ⟨hallowed, hseek⟩ := seek_eq_ok_iff.mp hseek
      obtain ⟨hname, fewer, idles, hidles, hgo⟩ := View.seek_behind_free hseek
      have hthere : made.view (place ++ [name]) = some .aFolder := by
        rw [hview, View.set_same]
      have hend := hgo made.view hmore true []
      rw [List.append_nil, ← start_congr hhere] at hend
      rw [seek_of_allowed hallowed, hend, View.seek_folder hname hthere, View.seek_append_idle hidles, View.seek_nil,
        if_pos hthere]
    · rw [hview, View.set_other (by simp)]
      exact (isTree_view d).none_below (by simp [hnone]) next
  · refine isFolder_eq_false fun found entry hfind => ?_
    rw [seek_of_find hfind] at hseek
    cases hseek

/-- In an empty directory another one can be created. -/
theorem createFolder_below (h : Fresh d above)
    (hbytes : p.bytes = above.bytes ++ Path.slash :: tail)
    (htail : Path.pieces tail = idles ++ [name]) (hidles : ∀ piece ∈ idles, IsIdle piece)
    (hname : IsName name) (hallowed : refusal? p = none) :
    ∃ made, d.createFolder p = (.ok (), made) := by
  obtain ⟨place, hplace, hempty⟩ := h
  have hfolder : d.view place = some .aFolder := shows_of_seek hplace
  suffices hfree : d.seek false p = .ok (.free place name false) from createFolder_of_free hfree
  have hne := ne_nil_of_seek hplace
  have hstart := Store.start_eq_of_leads (d := d) hne hbytes
  obtain ⟨fewer, hgo⟩ := View.seek_behind_folder (seek_eq_ok_iff.mp hplace).2
    fun _ _ hentry _ => hentry
  rw [seek_of_allowed hallowed, hstart, hbytes, Path.pieces_append_slash, htail, hgo false _ (by simp),
    View.seek_append_idle hidles]
  exact View.seek_free hname (hempty name) hfolder rfl

/-! ## Creating directories one in another -/

/-- How the creation of directories ends on a plain path: nothing has changed, or the last one is
new. -/
inductive Creation (d : Disk) (p : Path) : Except OsError Unit × Disk → Prop where
  | failed (e : OsError) : Creation d p (.error e, d)
  | there : (p.isEmpty = true ∨ d.isFolder p = true) → Creation d p (.ok (), d)
  | fresh {made : Disk} : Fresh made p → d.isFolder p = false → Creation d p (.ok (), made)

theorem creation_allowFolder (d : Disk) (p : Path) :
    Creation d p (allowFolder p (d.createFolder p)) := by
  cases hcreate : d.createFolder p with
  | mk outcome made =>
      cases outcome with
      | ok =>
          obtain ⟨hfresh, hnew⟩ := fresh_of_createFolder hcreate
          exact .fresh hfresh hnew
      | error e =>
          obtain rfl : made = d := by
            rcases createFolder_cases d p with ⟨e', he⟩ | ⟨_, _, _, _, -, hmade, -⟩
            · rw [he] at hcreate
              cases hcreate
              rfl
            · rw [hmade] at hcreate
              cases hcreate
          rw [allowFolder]
          split
          · rename_i hfolder
            exact .there (.inr hfolder)
          · exact .failed e

/-- A path whose directory is missing is refused neither for its length nor for a byte. -/
theorem refusal?_of_notFound (hne : p.bytes ≠ [])
    (h : d.createFolder p = (.error .notFound, made)) :
    made = d ∧ refusal? p = none ∧ d.isFolder p = false := by
  have hfind : d.find false p = .error .notFound ∧ made = d := by
    unfold createFolder at h
    split at h
    · cases h
    · cases h
    · rename_i e hfind
      cases h
      exact ⟨hfind, rfl⟩
  refine ⟨hfind.2, ?_, isFolder_eq_false fun place entry hfound => ?_⟩
  · have hseek : d.seek false p = .error .notFound := by
      rw [← find_map_bare, hfind.1]
      rfl
    cases hrefusal : refusal? p with
    | none => rfl
    | some e =>
        rw [seek, hrefusal] at hseek
        cases hseek
        rw [refusal?, Path.isEmpty, List.isEmpty_eq_false_iff.mpr hne] at hrefusal
        split at hrefusal <;> simp at hrefusal
  · rw [hfind.1] at hfound
    cases hfound

end Disk

namespace Store

open Disk (Creation Fresh)

variable {d made disk : Disk} {p path above : Path}

/-- A path that is created piece by piece: its components are names that are not too long, and it
ends in the last of them. -/
structure IsTrim (p : Path) : Prop where
  plain : IsPlain p
  ends : 2 ≤ p.bytes.length → ∃ front last, Path.pieces p.bytes = front ++ [last] ∧ ¬ IsIdle last

theorem isPlain_append {tail : Bytes} (hbytes : p.bytes = above.bytes ++ Path.slash :: tail)
    (h : IsPlain p) : IsPlain above := by
  intro piece hpiece
  refine h piece ?_
  rw [hbytes, Path.pieces_append_slash]
  exact List.mem_append_left _ hpiece

theorem isTrim_nil : IsTrim ⟨[]⟩ := by
  constructor
  · intro piece hpiece
    obtain rfl : piece = [] := by simpa [Path.pieces] using hpiece
    exact View.IsIdle.isPlainPiece (.inl rfl)
  · intro hlong
    simp at hlong

theorem IsTrim.of_parent? (h : IsPlain p) (hp : p.bytes ≠ []) (habove : p.parent? = some above) :
    IsTrim above := by
  refine ⟨?_, Path.endsInStep_of_parent? habove⟩
  rcases Path.above_of_parent? habove hp with ⟨hnone, -⟩ | ⟨hroot, -⟩ | ⟨tail, _, hbytes, -⟩
  · obtain ⟨bytes⟩ := above
    obtain rfl : bytes = [] := hnone
    exact isTrim_nil.plain
  · intro piece hpiece
    rw [hroot] at hpiece
    obtain rfl : piece = [] := by simpa [Path.pieces, Path.slash] using hpiece
    exact View.IsIdle.isPlainPiece (.inl rfl)
  · exact isPlain_append hbytes h

theorem isTrim_folderOf (h : IsPlain path) : IsTrim (folderOf path) := by
  have hdot : IsTrim (Path.ofString ".") := by
    constructor
    · intro piece hpiece
      obtain rfl : piece = [Path.dot] := by
        simpa [show Path.pieces (Path.ofString ".").bytes = [[Path.dot]] by decide] using hpiece
      exact View.IsIdle.isPlainPiece (.inr rfl)
    · intro hlong
      exact absurd hlong (by decide)
  unfold folderOf
  split
  · rename_i folder hparent
    split
    · exact hdot
    · exact .of_parent? h (nonempty_of_parent? hparent) hparent
  · exact hdot

theorem folderOf_ne_nil (path : Path) : (folderOf path).bytes ≠ [] := by
  have hdot : (Path.ofString ".").bytes ≠ [] := by decide
  unfold folderOf
  split
  · split
    · exact hdot
    · rename_i hempty
      simpa [Path.isEmpty] using hempty
  · exact hdot

/-- An empty directory above a path, unless it is the root, takes the last name of the path. -/
theorem createFolder_in_fresh (hp : IsTrim p) (habove : p.parent? = some above)
    (hfresh : Fresh d above) (hroot : above.bytes ≠ [Path.slash])
    (hallowed : Disk.refusal? p = none) : ∃ made, d.createFolder p = (.ok (), made) := by
  have hnonempty : above.bytes ≠ [] := by
    obtain ⟨place, hplace, -⟩ := hfresh
    exact Disk.ne_nil_of_seek hplace
  rcases Path.above_of_parent? habove (nonempty_of_parent? habove) with
    ⟨hnone, -⟩ | ⟨hslash, -⟩ | ⟨tail, step, hbytes, hsteps, -⟩
  · exact absurd hnone hnonempty
  · exact absurd hslash hroot
  obtain ⟨idles, last, htail⟩ : ∃ idles last, Path.pieces tail = idles ++ [last] := by
    rcases List.eq_nil_or_concat (Path.pieces tail) with hnil | ⟨idles, last, hlast⟩
    · exact absurd hnil (Path.pieces_ne_nil tail)
    · exact ⟨idles, last, by rw [hlast, List.concat_eq_append]⟩
  have hlong : 2 ≤ p.bytes.length := by
    have hsome : 0 < above.bytes.length := List.length_pos_iff.mpr hnonempty
    rw [hbytes, List.length_append, List.length_cons]
    omega
  obtain ⟨front, other, hpieces, hcounts⟩ := hp.ends hlong
  have hsame := hpieces
  rw [hbytes, Path.pieces_append_slash, htail, ← List.append_assoc] at hsame
  obtain ⟨-, hlast⟩ := List.append_inj' hsame rfl
  obtain rfl := (List.cons.inj hlast).1
  have hidles := idle_of_length_steps htail hcounts (by simp [hsteps])
  have hplain : View.IsPlainPiece last := by
    refine hp.plain last ?_
    rw [hpieces]
    exact List.mem_append_right _ List.mem_cons_self
  exact Disk.createFolder_below hfresh hbytes htail hidles ⟨hcounts, hplain.1, hplain.2⟩ hallowed

theorem createFolder_of_fresh_parent (hp : IsTrim p) (hfresh : Fresh made (p.parent?.getD ⟨[]⟩))
    (hnew : d.isFolder (p.parent?.getD ⟨[]⟩) = false) (hallowed : Disk.refusal? p = none) :
    ∃ last, made.createFolder p = (.ok (), last) := by
  cases hparent : p.parent? with
  | none =>
      rw [hparent] at hfresh
      obtain ⟨place, hplace, -⟩ := hfresh
      exact absurd rfl (Disk.ne_nil_of_seek hplace)
  | some above =>
      rw [hparent] at hfresh hnew
      refine createFolder_in_fresh hp hparent hfresh (fun hslash => ?_) hallowed
      obtain ⟨bytes⟩ := above
      obtain rfl : bytes = [Path.slash] := hslash
      rw [Option.getD_some, Disk.isFolder_root] at hnew
      cases hnew

theorem creation_createFoldersWithin (depth : Nat) (hp : IsTrim p) :
    Creation d p (d.createFoldersWithin depth p) := by
  induction depth generalizing p with
  | zero => exact .failed .notFound
  | succ depth ih =>
      have hallow := Disk.creation_allowFolder d p
      rw [Disk.createFoldersWithin]
      split
      · rename_i hempty
        exact .there (.inl hempty)
      rename_i hempty
      have hne : p.bytes ≠ [] := by simpa [Path.isEmpty] using hempty
      cases hcreate : d.createFolder p with
      | mk outcome made =>
          rw [hcreate] at hallow
          cases outcome with
          | ok => exact hallow
          | error e =>
              cases e with
              | notFound =>
                  obtain ⟨rfl, hallowed, hmissing⟩ := Disk.refusal?_of_notFound hne hcreate
                  have habove : IsTrim (p.parent?.getD ⟨[]⟩) := by
                    cases hparent : p.parent? with
                    | none => exact isTrim_nil
                    | some above => exact .of_parent? hp.plain hne hparent
                  have hrest := ih habove
                  dsimp only
                  generalize hmade : made.createFoldersWithin depth (p.parent?.getD ⟨[]⟩) = rest
                    at hrest
                  cases hrest with
                  | failed e => exact .failed e
                  | there _ =>
                      -- Nothing was missing above, so the directory is tried once more in vain.
                      exact Disk.creation_allowFolder made p
                  | @fresh last hfresh hnew =>
                      obtain ⟨new, hnew⟩ := createFolder_of_fresh_parent hp hfresh hnew hallowed
                      dsimp only
                      rw [hnew]
                      exact .fresh (Disk.fresh_of_createFolder hnew).1 hmissing
              | _ => exact hallow

/-- **The directory of a document with a plain path** is there after it has been created; where it
cannot be created, nothing has changed. -/
theorem createFolders_plain (disk : Disk) (h : IsPlain path) :
    (∃ e, disk.createFolders (folderOf path) = (.error e, disk)) ∨
      ∃ ready, disk.createFolders (folderOf path) = (.ok (), ready) ∧
        ready.isFolder (folderOf path) = true := by
  have hcreation := creation_createFoldersWithin (d := disk)
    ((folderOf path).bytes.length + 1) (isTrim_folderOf h)
  rw [Disk.createFolders]
  generalize disk.createFoldersWithin _ (folderOf path) = outcome at hcreation
  cases hcreation with
  | failed e => exact .inl ⟨e, rfl⟩
  | there hthere =>
      refine .inr ⟨disk, rfl, hthere.resolve_left fun hempty => ?_⟩
      exact folderOf_ne_nil path (by simpa [Path.isEmpty] using hempty)
  | @fresh made hfresh _ =>
      obtain ⟨place, hplace, -⟩ := hfresh
      exact .inr ⟨made, rfl, Disk.isFolder_iff.mpr ⟨place, hplace⟩⟩

/-! ## Where a document is -/

theorem refusal?_folderOf (h : Disk.refusal? path = none) :
    Disk.refusal? (folderOf path) = none := by
  have hdot : Disk.refusal? (Path.ofString ".") = none := by decide
  unfold folderOf
  split
  · rename_i folder hparent
    split
    · exact hdot
    rename_i hempty
    rcases Path.above_of_parent? hparent (nonempty_of_parent? hparent) with
      ⟨hnone, -⟩ | ⟨hroot, -⟩ | ⟨tail, _, hbytes, -, hne⟩
    · exact absurd (by simp [Path.isEmpty, hnone]) hempty
    · obtain ⟨bytes⟩ := folder
      obtain rfl : bytes = [Path.slash] := hroot
      decide
    · rw [Disk.refusal?_eq_none_iff] at h ⊢
      rw [hbytes, List.mem_append, List.length_append] at h
      exact ⟨fun hzero => h.1 (.inl hzero), hne, by omega⟩
  · exact hdot

/-- A document that can be read stands in the directory of its path. -/
theorem isFolder_of_contents {bytes : Bytes} (h : d.contents path = .ok bytes) :
    d.isFolder (folderOf path) = true := by
  obtain ⟨place, executable, hseek⟩ : ∃ place executable,
      d.seek true path = .ok (.found place (.file bytes executable)) := by
    rw [Disk.contents_eq] at h
    unfold Disk.readAt at h
    split at h <;> cases h
    exact ⟨_, _, ‹_›⟩
  obtain ⟨at_, there, hfind⟩ := Disk.find_false_of_seek_true hseek
  have hend := Disk.seek_of_find hfind
  have hflat : there.bare ≠ .aFolder := by
    intro hfolder
    obtain ⟨inside, rfl⟩ := Entry.bare_eq_aFolder.mp hfolder
    have hsame := Disk.seek_of_find (Disk.find_followLast (by simp [Entry.kind]) hfind)
    rw [hseek] at hsame
    simp [Spot.bare, Entry.bare] at hsame
  have hfree : d.view at_ ≠ some .aFolder := by
    have hthere : d.view at_ = some there.bare := Disk.shows_of_seek hend
    simpa [hthere] using hflat
  have hspot : (Spot.found at_ there).bare.EndsAt at_ := rfl
  obtain ⟨hallowed, hend⟩ := Disk.seek_eq_ok_iff.mp hend
  obtain ⟨front, name, hpieces, hname⟩ := View.name_of_ends hspot hfree hend
  obtain ⟨hstart, pieces, idles, hsplit, hidles, hsame⟩ := split_at_folder hpieces hname
  rw [hsplit] at hend
  obtain ⟨found, hfound⟩ := View.seek_front (Disk.isTree_view d) (.inr fun links place hplace => by
    rw [View.seek_append_idle hidles] at hplace
    refine (Disk.isTree_view d).above place name fun hnone => ?_
    rw [View.seek_name hname, hnone] at hplace
    dsimp only at hplace
    split at hplace <;> cases hplace) (by simp) hend
  refine Disk.isFolder_iff.mpr ⟨found, ?_⟩
  rw [Disk.seek_of_allowed (refusal?_folderOf hallowed), hsame, ← hstart, hfound]

end Store

end TodoIndex
