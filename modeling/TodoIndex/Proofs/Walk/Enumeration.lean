import TodoIndex.Proofs.Walk.Visits

/-! # Files and directories of a walk

From a directory on, a walk gives exactly the files below it that are not pruned, and exactly the
directories, in the order of the places.  Only a root that is spelled as the standard input is not
walked, whatever is there.
-/

namespace TodoIndex

open Text (Bytes bytesOf)

namespace Walk

variable {filter : Ignore.Filter} {disk : Disk} {root : Path} {inside : Folder}
  {place : List Bytes} {kind : EntryKind}

/-- At a place below a directory there is an entry of this kind, and its path is not pruned. -/
def Stands (filter : Ignore.Filter) (root : Path) (inside : Folder) (kind : EntryKind)
    (place : List Bytes) : Prop :=
  (inside.at? place).map Entry.kind = some kind ∧
    filter.prunes root (root.descend place) = false

theorem Stands.names (hnames : inside.WellNamed) (h : Stands filter root inside kind place) :
    ∀ name ∈ place, IsEntryName name := by
  obtain ⟨entry, hat, -⟩ := Option.map_eq_some_iff.mp h.1
  exact hnames.of_at? hat

/-- The paths are those of the places with a property, no two of them mean the same, and they
come in the order of the places: what is inside a directory right behind it, and its entries in
the order of the bytes of their names. -/
def Enumerates (root : Path) (P : List Bytes → Prop) (paths : List Path) : Prop :=
  ∃ places : List (List Bytes), paths = places.map root.descend ∧ places.Pairwise (· < ·) ∧
    (paths.Pairwise fun p q => p.same q = false) ∧ ∀ place, place ∈ places ↔ P place

theorem Enumerates.congr {P Q : List Bytes → Prop} {paths : List Path}
    (h : Enumerates root P paths) (hiff : ∀ place, P place ↔ Q place) :
    Enumerates root Q paths := by
  obtain ⟨places, hpaths, hordered, hdistinct, hmem⟩ := h
  exact ⟨places, hpaths, hordered, hdistinct, fun place => (hmem place).trans (hiff place)⟩

theorem stands_iff_prunesBelow (hnames : inside.WellNamed) (hroot : root.bytes ≠ []) :
    Stands filter root inside kind place ↔ (inside.at? place).map Entry.kind = some kind ∧
      filter.prunesBelow root (place.map .normal) = false := by
  refine and_congr_right fun hkind => ?_
  obtain ⟨entry, hat, -⟩ := Option.map_eq_some_iff.mp hkind
  rw [Ignore.Filter.prunes_descend (hnames.of_at? hat) hroot]

/-- What a walk meets of one kind below its root. -/
theorem enumerates_visit (filter : Ignore.Filter) (hnames : inside.WellNamed)
    (hroot : root.bytes ≠ []) (kind : EntryKind) :
    Enumerates root (fun place => place ≠ [] ∧ Stands filter root inside kind place)
      (ofKind kind (visit filter root inside.arranged)) := by
  let places := ((sites filter root inside.arranged).filter (·.2 = kind)).map Prod.fst
  have hmem : ∀ place, place ∈ places ↔ place ≠ [] ∧ Stands filter root inside kind place := by
    intro place
    have hplace : place ∈ places ↔ (place, kind) ∈ sites filter root inside.arranged := by
      simp [places]
    rw [hplace, mem_sites (Folder.ordered_arranged inside), Folder.at?_arranged, Option.map_map,
      stands_iff_prunesBelow hnames hroot]
    have hkind : Entry.kind ∘ Entry.arranged = Entry.kind := funext Entry.kind_arranged
    rw [hkind]
  have hordered : places.Pairwise (· < ·) :=
    List.pairwise_map.mpr ((pairwise_sites (Folder.ordered_arranged inside)).filter _)
  have hvalid : ∀ place ∈ places, ∀ name ∈ place, IsEntryName name :=
    fun place hplace => ((hmem place).mp hplace).2.names hnames
  have hpaths : ofKind kind (visit filter root inside.arranged) = places.map root.descend := by
    simp [ofKind, visit_eq, places, List.filter_map, Function.comp_def]
  refine ⟨places, hpaths, hordered, ?_, hmem⟩
  rw [hpaths, List.pairwise_map]
  refine hordered.imp_of_mem fun {place other} hplace hother hlt => ?_
  rw [Bool.eq_false_iff, ne_eq, Path.same_descend_iff (hvalid _ hplace) (hvalid _ hother) hroot]
  rintro rfl
  exact List.lt_irrefl _ hlt

/-! ## From the root on -/

theorem found_standardInput (h : root.same standardInput = true) :
    found filter disk root = pure [] := by
  simp [found, entries, h]

theorem found_folder (hroot : disk.entry false root = .ok (.folder inside))
    (hinput : root.same standardInput = false) :
    found filter disk root = pure ((root, .folder) :: visit filter root inside.arranged) := by
  simp [found, entries, hroot, hinput]

/-- A walk finds exactly the files below its root that are not pruned, and its directories are the
root and then exactly those below it that are not pruned, with nothing to warn of. -/
def Agrees (filter : Ignore.Filter) (disk : Disk) (root : Path) (inside : Folder) : Prop :=
  ∃ inFiles inFolders : List Path,
    files filter disk root = pure inFiles ∧
      folders filter disk root = pure (root :: inFolders) ∧
        Enumerates root (Stands filter root inside .file) inFiles ∧
          Enumerates root (fun place => place ≠ [] ∧ Stands filter root inside .folder place)
            inFolders

theorem not_agrees_standardInput (h : root.same standardInput = true) :
    ¬ Agrees filter disk root inside := by
  rintro ⟨inFiles, inFolders, -, hfolders, -, -⟩
  rw [folders, found_standardInput h] at hfolders
  cases congrArg Noted.value hfolders

/-- **A walk and the pruning of paths agree** on every directory, whatever is in it and whatever
the rules are, unless it is spelled as the standard input. -/
theorem agrees_iff (hroot : disk.entry false root = .ok (.folder inside))
    (hnames : inside.WellNamed) :
    Agrees filter disk root inside ↔ root.same standardInput = false := by
  cases hinput : root.same standardInput with
  | true => exact iff_of_false (not_agrees_standardInput hinput) (by simp)
  | false =>
      have hne := Disk.ne_nil_of_entry hroot
      refine iff_of_true ⟨_, _, ?_, ?_, (enumerates_visit filter hnames hne .file).congr ?_,
        enumerates_visit filter hnames hne .folder⟩ rfl
      · simp [files, found_folder hroot hinput, ofKind]
      · simp [folders, found_folder hroot hinput, ofKind]
      · refine fun place => and_iff_right_of_imp fun hstands => ?_
        rintro rfl
        simp [Stands, Entry.kind] at hstands

/-- A link, two directories and a file, not in order. -/
def mixedFolder : Folder :=
  .link (bytesOf "l") (bytesOf "lib") <|
    .folder (bytesOf "lib") (.file (bytesOf "b.go") [] false .empty) <|
      .folder (bytesOf "out") (.file (bytesOf "c.go") [] false .empty) <|
        .file (bytesOf "a.go") [] false .empty

def mixedDisk : Disk :=
  ⟨.folder (bytesOf "w") mixedFolder .empty, []⟩

/-- A rule for one of the two directories. -/
def mixedFilter : Ignore.Filter :=
  ⟨[.forFolder "w/out".toList]⟩

theorem agrees_mixed : Agrees mixedFilter mixedDisk (.ofString "w") mixedFolder :=
  (agrees_iff rfl (by decide +kernel)).mpr (by decide +kernel)

example : (files mixedFilter mixedDisk (.ofString "w")).value =
    [.ofString "w/a.go", .ofString "w/lib/b.go"] := by
  decide +kernel

/-- A directory with a file in it, and a name that is taken for the standard input. -/
def dashFolder : Folder :=
  .file (bytesOf "a.go") [] false .empty

def dashDisk : Disk :=
  ⟨.folder (bytesOf "-") dashFolder .empty, []⟩

/-- Neither the file nor the directory is found, though both are there and there are no rules. -/
theorem not_agrees_dash :
    dashDisk.entry false (.ofString "-") = .ok (.folder dashFolder) ∧ dashFolder.WellNamed ∧
      Stands .empty (.ofString "-") dashFolder .file [bytesOf "a.go"] ∧
        ¬ Agrees .empty dashDisk (.ofString "-") dashFolder :=
  ⟨rfl, by decide +kernel, ⟨rfl, rfl⟩, not_agrees_standardInput (by decide +kernel)⟩

end Walk

end TodoIndex
