import TodoIndex.Proofs.Files.Ancestors
import TodoIndex.Proofs.Files.Directories
import TodoIndex.Proofs.Files.Passages
import TodoIndex.Store.Saving

/-! # Sites of documents

Before a document is saved its directory is created.  Where the directory is there, or where the
path of the document is plain, that has no bearing on what is read under the path.  Other paths
can lead somewhere else once a directory is there, or be refused in another way.
-/

namespace TodoIndex.Store

open Text (Bytes)
open Disk (Above)

variable {d disk : Disk} {path above folder : Path}

/-- A path whose components are names that are not too long. -/
def IsPlain (path : Path) : Prop :=
  ∀ piece ∈ Path.pieces path.bytes, View.IsPlainPiece piece

/-- A path of a document that is read alike before and after its directory is created. -/
def Site (disk : Disk) (path : Path) : Prop :=
  disk.isFolder (folderOf path) = true ∨ IsPlain path

/-- A path above the document's: one without steps, or a beginning of it. -/
def Leads (above path : Path) : Prop :=
  Path.steps above.bytes = [] ∨ above.bytes ≠ [] ∧
    ∃ tail, path.bytes = above.bytes ++ Path.slash :: tail ∧ Path.steps tail ≠ []

theorem leads_of_goesOn (h : Path.GoesOn above path) : Leads above path := by
  obtain ⟨tail, last, hbytes, hsteps, hne⟩ := h
  exact .inr ⟨hne, tail, hbytes, by simp [hsteps]⟩

theorem nonempty_of_parent? (h : folder.parent? = some above) : folder.bytes ≠ [] := by
  intro hempty
  obtain ⟨bytes⟩ := folder
  obtain rfl : bytes = [] := hempty
  cases h

theorem leads_parent (h : Leads folder path) : Leads (folder.parent?.getD ⟨[]⟩) path := by
  cases hparent : folder.parent? with
  | none => exact .inl rfl
  | some above =>
      rcases Path.above_of_parent? hparent (nonempty_of_parent? hparent) with
        ⟨hempty, -⟩ | ⟨hroot, -⟩ | ⟨tail, last, hbytes, hsteps, hne⟩
      · exact .inl (by simp [hempty])
      · exact .inl (by simp only [Option.getD_some, hroot]; decide)
      · rcases h with hnone | ⟨-, rest, hpath, hrest⟩
        · rw [hbytes, Path.steps_append_slash, hsteps] at hnone
          simp at hnone
        · refine .inr ⟨hne, tail ++ Path.slash :: rest, ?_, ?_⟩
          · rw [hpath, hbytes]
            simp
          · simp [Path.steps_append_slash, hsteps]

theorem leads_folderOf (path : Path) : Leads (folderOf path) path := by
  unfold folderOf
  split
  · rename_i folder hparent
    split
    · exact .inl Path.steps_dot
    · rename_i hempty
      rcases Path.above_of_parent? hparent (nonempty_of_parent? hparent) with
        ⟨hnone, -⟩ | ⟨hroot, -⟩ | hgoes
      · exact absurd (by simp [Path.isEmpty, hnone]) hempty
      · exact .inl (by rw [hroot]; decide)
      · exact leads_of_goesOn hgoes
  · exact .inl Path.steps_dot

theorem leads_of_above (h : Above above folder) (hleads : Leads folder path) :
    Leads above path := by
  induction h with
  | self => exact hleads
  | parent _ ih => exact ih (leads_parent hleads)

/-- A path without steps is a directory, if it is anything. -/
theorem not_free_of_no_steps (h : Path.steps above.bytes = []) {place : List Bytes} {name : Bytes}
    {slash : Bool} : d.seek false above ≠ .ok (.free place name slash) := by
  intro hseek
  have hidle : ∀ piece ∈ Path.pieces above.bytes, IsIdle piece := by
    intro piece hpiece
    have hno := List.filter_eq_nil_iff.mp h piece hpiece
    simpa using hno
  have hend : View.seek d.view false Disk.maxLinks (d.start above)
      (Path.pieces above.bytes ++ []) = View.seek d.view false Disk.maxLinks (d.start above) [] :=
    View.seek_append_idle hidle
  replace hseek := (Disk.seek_eq_ok_iff.mp hseek).2
  rw [List.append_nil] at hend
  rw [hend, View.seek_nil] at hseek
  split at hseek <;> cases hseek

theorem start_eq_of_leads (hne : above.bytes ≠ []) {tail : Bytes}
    (hbytes : path.bytes = above.bytes ++ Path.slash :: tail) : d.start path = d.start above := by
  obtain ⟨c, rest, hc⟩ := List.exists_cons_of_ne_nil hne
  simp [Disk.start, Path.isAbsolute, hbytes, hc]

section
variable {v : View} {links : Nat} {place rest : List Bytes} {name : Bytes}

/-- Nothing is read behind a name that stands for nothing. -/
theorem readAt_of_none (hname : IsName name) (hnone : v (place ++ [name]) = none) :
    Disk.readAt (v.seek true links place (name :: rest)) = .error .notFound := by
  rw [View.seek_name hname, hnone]
  dsimp only
  split <;> rfl

/-- Nothing is read behind an empty directory. -/
theorem readAt_of_empty (hname : IsName name) (hthere : v (place ++ [name]) = some .aFolder)
    (hbelow : ∀ next, v (place ++ [name] ++ [next]) = none)
    (hplain : ∀ piece ∈ rest, View.IsPlainPiece piece) (hsteps : ∃ piece ∈ rest, ¬ IsIdle piece) :
    Disk.readAt (v.seek true links place (name :: rest)) = .error .notFound := by
  rw [View.seek_folder hname hthere]
  rcases View.seek_in_empty hbelow hplain hsteps with herror | ⟨_, _, _, hfree⟩
  · exact congrArg Disk.readAt herror
  · exact congrArg Disk.readAt hfree

end

/-- A directory on the way to a plain path is created where nothing was; the path leads into it
and still to nothing. -/
theorem contents_createFolder (hplain : IsPlain path) (hleads : Leads above path) :
    (d.createFolder above).2.contents path = d.contents path := by
  rcases Disk.createFolder_cases d above with
    ⟨e, he⟩ | ⟨place, name, slash, made, hseek, hmade, hhere, hview⟩
  · rw [he]
  rcases hleads with hnone | ⟨hne, tail, hbytes, htail⟩
  · exact absurd hseek (not_free_of_no_steps hnone)
  have hnone : d.view (place ++ [name]) = none := (Disk.shows_of_seek hseek).2
  rw [hmade, Disk.contents_eq, Disk.contents_eq]
  cases hallowed : Disk.refusal? path with
  | some e => rw [Disk.seek, Disk.seek, hallowed]
  | none =>
      rw [Disk.seek_of_allowed hallowed, Disk.seek_of_allowed hallowed, Disk.start_congr hhere,
        start_eq_of_leads hne hbytes, hbytes, Path.pieces_append_slash]
      obtain ⟨hname, fewer, idles, hidles, hgo⟩ :=
        View.seek_behind_free (Disk.seek_eq_ok_iff.mp hseek).2
      have hmore : ∀ other entry, d.view other = some entry → made.view other = some entry := by
        intro other entry ho
        rw [hview]
        exact View.set_mono hnone ho
      have hsteps : ∃ piece ∈ idles ++ Path.pieces tail, ¬ IsIdle piece := by
        obtain ⟨piece, hpiece⟩ := List.exists_mem_of_ne_nil _ htail
        obtain ⟨hmem, hidle⟩ := List.mem_filter.mp hpiece
        exact ⟨piece, List.mem_append_right _ hmem, by simpa using hidle⟩
      have hshort : ∀ piece ∈ idles ++ Path.pieces tail, View.IsPlainPiece piece := by
        intro piece hpiece
        rcases List.mem_append.mp hpiece with hidle | htail
        · exact View.IsIdle.isPlainPiece (hidles piece hidle)
        · refine hplain piece ?_
          rw [hbytes, Path.pieces_append_slash]
          exact List.mem_append_right _ htail
      have hthere : made.view (place ++ [name]) = some .aFolder := by
        rw [hview, View.set_same]
      have hbelow : ∀ next, made.view (place ++ [name] ++ [next]) = none := by
        intro next
        rw [hview, View.set_other (by simp)]
        exact (Disk.isTree_view d).none_below (by simp [hnone]) next
      rw [hgo made.view hmore, hgo d.view (fun _ _ ho => ho), readAt_of_none hname hnone]
      exact readAt_of_empty hname hthere hbelow hshort hsteps

/-- At its site a document is read alike while its directory is created, and afterwards. -/
theorem Site.contents_eq (h : Site disk path) :
    (disk.createFolders (folderOf path)).2.contents path = disk.contents path ∧
      ∀ m ∈ disk.foldersPassed (folderOf path), m.contents path = disk.contents path := by
  rcases h with hfolder | hplain
  · obtain ⟨hcreate, hpassed⟩ := Disk.createFolders_of_isFolder hfolder
    rw [hcreate, hpassed]
    exact ⟨rfl, by simp⟩
  · refine Disk.createFolders_induction
      (P := fun d => d.contents path = disk.contents path) _ rfl ?_
    intro d above hd habove
    rw [contents_createFolder hplain (leads_of_above habove (leads_folderOf path)), hd]

/-- A document that is missing has a site. -/
def Steady (disk : Disk) (path : Path) : Prop :=
  disk.contents path = .error .notFound → Site disk path

/-- What a path leads to that is not missing stays, and a document that is missing has a site; so
it is read alike while its directory is created, and afterwards. -/
theorem Steady.contents_eq (h : Steady disk path) :
    (disk.createFolders (folderOf path)).2.contents path = disk.contents path ∧
      ∀ m ∈ disk.foldersPassed (folderOf path), m.contents path = disk.contents path := by
  by_cases hnone : disk.contents path = .error .notFound
  · exact (h hnone).contents_eq
  · obtain ⟨hgrown, hpassed⟩ := Disk.grown_createFolders disk (folderOf path)
    exact ⟨hgrown.contents_eq hnone, fun m hm => (hpassed m hm).contents_eq hnone⟩

/-! ## The last name of a path -/

theorem idle_of_length_steps {p : Bytes} {front : List Bytes} {last : Bytes}
    (h : Path.pieces p = front ++ [last]) (hlast : ¬ IsIdle last)
    (hlength : (Path.steps p).length ≤ 1) : ∀ piece ∈ front, IsIdle piece := by
  have hsteps : (front.filter fun piece => !decide (IsIdle piece)) = [] := by
    rw [Path.steps, h, List.filter_append, List.length_append] at hlength
    have hone : ([last].filter fun piece => !decide (IsIdle piece)) = [last] := by simp [hlast]
    rw [hone, List.length_singleton] at hlength
    exact List.eq_nil_of_length_eq_zero (by omega)
  intro piece hpiece
  simpa using List.filter_eq_nil_iff.mp hsteps piece hpiece

/-- A path that ends in a name goes to the directory of its document and on to that name. -/
theorem split_at_folder {front : List Bytes} {name : Bytes}
    (h : Path.pieces path.bytes = front ++ [name]) (hname : IsName name) :
    (∀ d : Disk, d.start path = d.start (folderOf path)) ∧
      ∃ pieces idles, Path.pieces path.bytes = pieces ++ (idles ++ [name]) ∧
        (∀ piece ∈ idles, IsIdle piece) ∧
        ∀ (v : View) links place,
          v.seek true links place (Path.pieces (folderOf path).bytes) =
            v.seek true links place pieces := by
  obtain ⟨above, habove⟩ := Path.exists_parent? h hname.not_idle
  have hfolder : folderOf path = if above.isEmpty then Path.ofString "." else above := by
    rw [folderOf, habove]
  rcases Path.above_of_parent? habove (nonempty_of_parent? habove) with
    ⟨hnone, hrelative, hlength⟩ | ⟨hroot, habsolute, hlength⟩ | ⟨tail, last, hbytes, hsteps, hne⟩
  · have hdot : folderOf path = Path.ofString "." := by simp [hfolder, Path.isEmpty, hnone]
    have hpieces : Path.pieces (folderOf path).bytes = [[Path.dot]] := by
      rw [hdot]
      decide
    refine ⟨fun d => ?_, [], front, h, idle_of_length_steps h hname.not_idle hlength, ?_⟩
    · have hhere : (Path.ofString ".").isAbsolute = false := by decide
      rw [hdot, Disk.start, Disk.start, hrelative, hhere]
    · intro v links place
      rw [hpieces]
      exact View.seek_idle (.inr rfl)
  · have hslash : folderOf path = above := by simp [hfolder, Path.isEmpty, hroot]
    have hpieces : Path.pieces (folderOf path).bytes = [[], []] := by
      rw [hslash, hroot]
      decide
    refine ⟨fun d => ?_, [], front, h, idle_of_length_steps h hname.not_idle hlength, ?_⟩
    · have htop : above.isAbsolute = true := by simp [Path.isAbsolute, hroot]
      rw [hslash, Disk.start, Disk.start, habsolute, htop]
    · intro v links place
      rw [hpieces, View.seek_idle (.inl rfl)]
      exact View.seek_idle (.inl rfl)
  · have hsame : folderOf path = above := by simp [hfolder, Path.isEmpty, hne]
    rw [hsame]
    have htail : ∃ idles, Path.pieces tail = idles ++ [name] := by
      rcases List.eq_nil_or_concat (Path.pieces tail) with hnil | ⟨idles, other, hother⟩
      · exact absurd hnil (Path.pieces_ne_nil tail)
      · rw [hbytes, Path.pieces_append_slash, hother, List.concat_eq_append,
          ← List.append_assoc] at h
        obtain ⟨-, hend⟩ := List.append_inj' h rfl
        cases hend
        exact ⟨idles, by rw [hother, List.concat_eq_append]⟩
    obtain ⟨idles, hidles⟩ := htail
    refine ⟨fun d => start_eq_of_leads hne hbytes, Path.pieces above.bytes, idles, ?_, ?_,
      fun v links place => rfl⟩
    · rw [hbytes, Path.pieces_append_slash, hidles]
    · exact idle_of_length_steps hidles hname.not_idle (by simp [hsteps])

end TodoIndex.Store
