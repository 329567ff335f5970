import TodoIndex.Proofs.Walk.Enumeration

/-! # The directories that files are in

The directory above a file of a walk is a directory of the same walk, since what is above
something that is not pruned is not pruned.  The root is special: as a link it is entered and yet
no directory of the walk, so that the files right in it are in none.
-/

namespace TodoIndex

open Text (Bytes bytesOf)

namespace Walk

variable {filter : Ignore.Filter} {disk : Disk} {root p : Path} {inside : Folder}
  {init : List Bytes} {name : Bytes} {kind : EntryKind}

/-! ## Above what stands -/

/-- Above something that stands there is a directory that stands there. -/
theorem Stands.above (hnames : inside.WellNamed) (hroot : root.bytes ≠ [])
    (h : Stands filter root inside kind (init ++ [name])) :
    Stands filter root inside .folder init := by
  rw [stands_iff_prunesBelow hnames hroot] at h ⊢
  obtain ⟨hkind, hkept⟩ := h
  rw [List.map_append] at hkept
  refine ⟨?_, Ignore.Filter.prunesBelow_of_append hkept⟩
  obtain ⟨entry, hat, -⟩ := Option.map_eq_some_iff.mp hkind
  rw [← Folder.at?_append_singleton, Option.bind_eq_some_iff] at hat
  obtain ⟨above, hfolder, -⟩ := hat
  rw [Folder.folderAt?] at hfolder
  split at hfolder
  · rename_i inside' hat
    rw [hat]
    rfl
  · cases hfolder

/-- The path above that of a place is, if not in its spelling, the path of the place above. -/
theorem Stands.parent? (hnames : inside.WellNamed) (hroot : root.bytes ≠ [])
    (h : Stands filter root inside kind (init ++ [name])) :
    ∃ above, (root.descend (init ++ [name])).parent? = some above ∧
      (root.descend init).same above = true := by
  have hvalid := h.names hnames
  rw [Path.descend_concat]
  refine Path.parent?_child (hvalid name (by simp)) (Path.descend_ne_nil ?_ hroot)
  exact fun n hn => hvalid n (List.mem_append_left _ hn)

theorem mem_ofKind_visit (hnames : inside.WellNamed) (hroot : root.bytes ≠ []) :
    p ∈ ofKind kind (visit filter root inside.arranged) ↔
      ∃ place, place ≠ [] ∧ Stands filter root inside kind place ∧ root.descend place = p := by
  obtain ⟨places, hpaths, -, -, hmem⟩ := enumerates_visit filter hnames hroot kind
  rw [hpaths, List.mem_map]
  simp only [hmem, and_assoc]

/-- The directory above a file is visited, or it is the root. -/
theorem parent?_of_mem_visit (hnames : inside.WellNamed) (hroot : root.bytes ≠ [])
    (hp : p ∈ ofKind .file (visit filter root inside.arranged)) :
    ∃ above, p.parent? = some above ∧
      ((∃ folder ∈ ofKind .folder (visit filter root inside.arranged),
          folder.same above = true) ∨
        root.same above = true ∧ ∃ name, Stands filter root inside .file [name]) := by
  obtain ⟨place, hne, hstands, rfl⟩ := (mem_ofKind_visit hnames hroot).mp hp
  obtain ⟨init, name, rfl⟩ : ∃ init name, place = init ++ [name] :=
    ⟨_, _, (List.dropLast_concat_getLast hne).symm⟩
  obtain ⟨above, habove, hsame⟩ := hstands.parent? hnames hroot
  refine ⟨above, habove, ?_⟩
  cases init with
  | nil => exact .inr ⟨hsame, name, hstands⟩
  | cons first init =>
      refine .inl ⟨_, (mem_ofKind_visit hnames hroot).mpr ⟨_, ?_, hstands.above hnames hroot, rfl⟩,
        hsame⟩
      simp

/-! ## The span of a walk -/

/-- The directory above each file of a walk is a directory of the walk. -/
def Spans (filter : Ignore.Filter) (disk : Disk) (root : Path) : Prop :=
  ∀ file ∈ (files filter disk root).value, ∃ above, file.parent? = some above ∧
    ∃ folder ∈ (folders filter disk root).value, folder.same above = true

theorem spans_of_folder (hroot : disk.entry false root = .ok (.folder inside))
    (hnames : inside.WellNamed) (hinput : root.same standardInput = false) :
    Spans filter disk root := by
  intro file hfile
  have hne := Disk.ne_nil_of_entry hroot
  have hvisit : file ∈ ofKind .file (visit filter root inside.arranged) := by
    simpa [files, found_folder hroot hinput, ofKind] using hfile
  obtain ⟨above, habove, hsame⟩ := parent?_of_mem_visit hnames hne hvisit
  refine ⟨above, habove, ?_⟩
  have hfolders : (folders filter disk root).value =
      root :: ofKind .folder (visit filter root inside.arranged) := by
    simp [folders, found_folder hroot hinput, ofKind]
  rw [hfolders]
  rcases hsame with ⟨folder, hfolder, hsame⟩ | ⟨hsame, -⟩
  · exact ⟨folder, List.mem_cons_of_mem _ hfolder, hsame⟩
  · exact ⟨root, List.mem_cons_self, hsame⟩

theorem found_link {target : Bytes} (hlink : disk.entry false root = .ok (.link target))
    (hroot : disk.entry true root = .ok (.folder inside))
    (hinput : root.same standardInput = false) :
    found filter disk root = pure ((root, .link) :: visit filter root inside.arranged) := by
  simp [found, entries, hlink, hroot, hinput]

/-- A root that is a link is no directory of its walk, and only what is right in it is missed. -/
theorem spans_link_iff {target : Bytes} (hlink : disk.entry false root = .ok (.link target))
    (hroot : disk.entry true root = .ok (.folder inside)) (hnames : inside.WellNamed)
    (hinput : root.same standardInput = false) :
    Spans filter disk root ↔ ∀ name, ¬ Stands filter root inside .file [name] := by
  have hne := Disk.ne_nil_of_entry hroot
  have hfiles : (files filter disk root).value =
      ofKind .file (visit filter root inside.arranged) := by
    simp [files, found_link hlink hroot hinput, ofKind]
  have hfolders : (folders filter disk root).value =
      ofKind .folder (visit filter root inside.arranged) := by
    simp [folders, found_link hlink hroot hinput, ofKind]
  rw [Spans, hfiles, hfolders]
  constructor
  · intro hspans name hstands
    obtain ⟨above, habove, folder, hfolder, hsame⟩ := hspans (root.descend [name])
      ((mem_ofKind_visit hnames hne).mpr ⟨[name], by simp, hstands, rfl⟩)
    obtain ⟨above', habove', hroot'⟩ :=
      Stands.parent? hnames hne (show Stands filter root inside .file ([] ++ [name]) from hstands)
    obtain rfl : above = above' := Option.some.inj (habove.symm.trans habove')
    -- The directory above is the root, which is at no place below itself.
    obtain ⟨place, hplace, hstands', rfl⟩ := (mem_ofKind_visit hnames hne).mp hfolder
    exact hplace ((Path.same_descend_iff (hstands'.names hnames) (by simp) hne).mp
      (Path.same_trans hsame (Path.same_symm hroot')))
  · intro hnone file hfile
    obtain ⟨above, habove, hfolder | ⟨-, name, hstands⟩⟩ := parent?_of_mem_visit hnames hne hfile
    · exact ⟨above, habove, hfolder⟩
    · exact absurd hstands (hnone name)

theorem stands_singleton_iff (hnames : inside.WellNamed) (hroot : root.bytes ≠ []) :
    Stands filter root inside .file [name] ↔
      (∃ content executable, inside.get? name = some (.file content executable)) ∧
        filter.ignores (root.child name) = false := by
  rw [stands_iff_prunesBelow hnames hroot, Folder.at?_singleton, Ignore.Filter.prunesBelow_cons]
  refine and_congr ?_ (by simp [Ignore.Filter.prunesBelow])
  cases inside.get? name with
  | none => simp
  | some entry => cases entry <;> simp [Entry.kind]

/-- The walk gives no file right in the root just if all files there are ignored. -/
theorem no_file_stands_iff (hnames : inside.WellNamed) (hroot : root.bytes ≠ []) :
    (∀ name, ¬ Stands filter root inside .file [name]) ↔
      ∀ name content executable, inside.get? name = some (.file content executable) →
        filter.ignores (root.child name) = true := by
  constructor
  · intro hnone name content executable hget
    refine Bool.of_not_eq_false fun hkept => hnone name ?_
    exact (stands_singleton_iff hnames hroot).mpr ⟨⟨content, executable, hget⟩, hkept⟩
  · intro hignored name hstands
    obtain ⟨⟨content, executable, hget⟩, hkept⟩ := (stands_singleton_iff hnames hroot).mp hstands
    rw [hignored name content executable hget] at hkept
    cases hkept

/-- **What is read is watched.**  For a root that is read as a directory, the directory above each
file of the walk is a directory of the walk if and only if the root is no link, or no file right
in it is visited, or it is taken for the standard input. -/
theorem spans_iff (hroot : disk.readFolder root = .ok inside) (hnames : inside.WellNamed) :
    Spans filter disk root ↔
      root.same standardInput = true ∨ (∀ target, disk.entry false root ≠ .ok (.link target)) ∨
        ∀ name content executable, inside.get? name = some (.file content executable) →
          filter.ignores (root.child name) = true := by
  rw [Disk.readFolder_iff] at hroot
  cases hinput : root.same standardInput with
  | true =>
      refine iff_of_true (fun file hfile => ?_) (.inl rfl)
      simp [files, found_standardInput hinput, ofKind] at hfile
  | false =>
      cases hentry : disk.entry false root with
      | error e =>
          refine iff_of_true (fun file hfile => ?_) (by simp)
          simp [files, found, entries, hinput, hentry, ofKind] at hfile
      | ok entry =>
          cases entry with
          | file content executable =>
              have hfollow := Disk.entry_followLast (by simp [Entry.kind]) hentry
              rw [hroot] at hfollow
              cases hfollow
          | folder inside' =>
              have hfollow := Disk.entry_followLast (by simp [Entry.kind]) hentry
              rw [hroot] at hfollow
              cases hfollow
              exact iff_of_true (spans_of_folder hentry hnames hinput) (by simp)
          | link target =>
              rw [spans_link_iff hentry hroot hnames hinput,
                no_file_stands_iff hnames (Disk.ne_nil_of_entry hroot)]
              simp only [Bool.false_eq_true, Except.ok.injEq, Entry.link.injEq, ne_eq, forall_eq',
                false_or]

/-- A directory, and a link to it. -/
def linkedDisk : Disk :=
  ⟨.folder (bytesOf "w") mixedFolder (.link (bytesOf "m") (bytesOf "w") .empty), []⟩

theorem spans_directory : Spans mixedFilter linkedDisk (.ofString "w") := by
  have hread : linkedDisk.readFolder (.ofString "w") = .ok mixedFolder := rfl
  have hentry : linkedDisk.entry false (.ofString "w") = .ok (.folder mixedFolder) := rfl
  refine (spans_iff hread (by decide +kernel)).mpr (.inr (.inl fun target hlink => ?_))
  rw [hentry] at hlink
  cases hlink

/-- From the link on, a file right in the directory is found, but no directory that it is in. -/
theorem not_spans_link :
    linkedDisk.readFolder (.ofString "m") = .ok mixedFolder ∧ mixedFolder.WellNamed ∧
      .ofString "m/a.go" ∈ (files mixedFilter linkedDisk (.ofString "m")).value ∧
        ¬ Spans mixedFilter linkedDisk (.ofString "m") := by
  have hfile : .ofString "m/a.go" ∈ (files mixedFilter linkedDisk (.ofString "m")).value := by
    decide +kernel
  refine ⟨rfl, by decide +kernel, hfile, fun hspans => ?_⟩
  obtain ⟨above, habove, folder, hfolder, hsame⟩ := hspans _ hfile
  have hm : (Path.ofString "m/a.go").parent? = some (.ofString "m") := by decide +kernel
  have hnone : ∀ folder ∈ (folders mixedFilter linkedDisk (.ofString "m")).value,
      folder.same (.ofString "m") = false := by
    decide +kernel
  obtain rfl : above = .ofString "m" := Option.some.inj (habove.symm.trans hm)
  rw [hnone folder hfolder] at hsame
  cases hsame

end Walk

end TodoIndex
