import TodoIndex.Proofs.Files.Descents
import TodoIndex.Proofs.Files.Directories
import TodoIndex.Proofs.Walk.Span

/-! # The files of a walk

Whatever a root is, a directory, a link to one, or a file, the files of a walk lie at the root or
below it, none of them is pruned, and no two of them are the same.
-/

namespace TodoIndex

open Text (Bytes)

namespace Disk

/-- Below a directory of a well named disk everything is well named. -/
theorem wellNamed_of_entry {d : Disk} {followLast : Bool} {p : Path} {inside : Folder}
    (hnames : d.top.WellNamed) (h : d.entry followLast p = .ok (.folder inside)) :
    inside.WellNamed := by
  obtain ⟨place, hfind⟩ := find_of_entry h
  exact hnames.of_folderAt? (Folder.folderAt?_eq_some_iff.mpr (at?_of_find hfind))

end Disk

namespace Ignore.Filter

theorem prunes_self (filter : Filter) (root : Path) : filter.prunes root root = false := by
  rw [prunes, Path.below?_eq_some_iff.mpr (List.append_nil _).symm]
  rfl

/-- Below a root only the components of a path matter. -/
theorem prunes_congr {filter : Filter} {root p q : Path} (hp : p.startsWith root = true)
    (h : p.same q = true) : filter.prunes root q = filter.prunes root p := by
  obtain ⟨rest, hrest⟩ := Option.isSome_iff_exists.mp hp
  have hq : Path.below? root q = some rest := by
    rw [Path.below?, ← Path.same_iff.mp h]
    exact hrest
  rw [prunes, prunes, hrest, hq]

end Ignore.Filter

namespace Walk

variable {filter : Ignore.Filter} {disk : Disk} {root p : Path}

/-- A walk gives no file, or its root, or the files in the directory that its root leads to. -/
theorem files_cases (filter : Ignore.Filter) (disk : Disk) (root : Path) :
    (files filter disk root).value = [] ∨ (files filter disk root).value = [root] ∨
      ∃ inside, disk.entry true root = .ok (.folder inside) ∧
        (files filter disk root).value = ofKind .file (visit filter root inside.arranged) := by
  cases hinput : root.same standardInput with
  | true => exact .inl (by simp [files, found_standardInput hinput, ofKind])
  | false =>
      cases hentry : disk.entry false root with
      | error e => exact .inl (by simp [files, found, entries, hinput, hentry, ofKind])
      | ok entry =>
          cases entry with
          | file content executable =>
              exact .inr (.inl (by simp [files, found, entries, hinput, hentry, ofKind]))
          | folder inside =>
              refine .inr (.inr ⟨inside, Disk.entry_followLast (by simp [Entry.kind]) hentry, ?_⟩)
              simp [files, found_folder hentry hinput, ofKind]
          | link target =>
              cases hfollow : disk.entry true root with
              | error e =>
                  exact .inl (by simp [files, found, entries, hinput, hentry, hfollow, ofKind])
              | ok entry =>
                  cases entry with
                  | file content executable =>
                      refine .inr (.inl ?_)
                      simp [files, found, entries, hinput, hentry, hfollow, ofKind]
                  | folder inside =>
                      refine .inr (.inr ⟨inside, rfl, ?_⟩)
                      simp [files, found_link hentry hfollow hinput, ofKind]
                  | link target' =>
                      exact .inl (by simp [files, found, entries, hinput, hentry, hfollow, ofKind])

/-- A file of a walk lies at its root or below it, and is not pruned. -/
theorem kept_of_mem_files (hnames : disk.top.WellNamed)
    (hp : p ∈ (files filter disk root).value) :
    p.startsWith root = true ∧ filter.prunes root p = false := by
  rcases files_cases filter disk root with hnone | hself | ⟨inside, hroot, hvisit⟩
  · rw [hnone] at hp
    cases hp
  · rw [hself] at hp
    obtain rfl := List.mem_singleton.mp hp
    exact ⟨Path.startsWith_of_within (Path.within_self p), filter.prunes_self p⟩
  · have hinside := Disk.wellNamed_of_entry hnames hroot
    have hne := Disk.ne_nil_of_entry hroot
    rw [hvisit] at hp
    obtain ⟨place, -, hstands, rfl⟩ := (mem_ofKind_visit hinside hne).mp hp
    exact ⟨Path.startsWith_of_within (Path.within_descend (hstands.names hinside) hne), hstands.2⟩

/-- A walk gives each file once. -/
theorem pairwise_files (hnames : disk.top.WellNamed) (filter : Ignore.Filter) (root : Path) :
    (files filter disk root).value.Pairwise fun p q => p.same q = false := by
  rcases files_cases filter disk root with hnone | hself | ⟨inside, hroot, hvisit⟩
  · rw [hnone]
    exact .nil
  · rw [hself]
    exact List.pairwise_singleton _ _
  · obtain ⟨places, -, -, hdistinct, -⟩ := enumerates_visit filter
      (Disk.wellNamed_of_entry hnames hroot) (Disk.ne_nil_of_entry hroot) .file
    rwa [hvisit]

/-! ## Files that can be reached -/

/-- A path of a file, or of a link to one, that is the root, or of a file that is reached from the
directory that the root leads to without going through a link. -/
inductive Reaches (disk : Disk) (root : Path) : Path → Prop where
  | root {p : Path} {content : Bytes} {executable : Bool} :
      disk.entry true root = .ok (.file content executable) → p.same root = true →
      Reaches disk root p
  | below {p : Path} {inside : Folder} {content : Bytes} {executable : Bool}
      (place : List Bytes) :
      disk.readFolder root = .ok inside →
      inside.at? place = some (.file content executable) →
      p.same (root.descend place) = true → Reaches disk root p

theorem files_of_file {content : Bytes} {executable : Bool}
    (hroot : disk.entry true root = .ok (.file content executable))
    (hinput : root.same standardInput = false) : (files filter disk root).value = [root] := by
  rcases Disk.entry_false_cases hroot with hentry | ⟨target, hentry⟩
  · simp [files, found, entries, hinput, hentry, ofKind]
  · simp [files, found, entries, hinput, hentry, hroot, ofKind]

theorem files_of_folder {inside : Folder} (hroot : disk.entry true root = .ok (.folder inside))
    (hinput : root.same standardInput = false) :
    (files filter disk root).value = ofKind .file (visit filter root inside.arranged) := by
  rcases Disk.entry_false_cases hroot with hentry | ⟨target, hentry⟩
  · simp [files, found_folder hentry hinput, ofKind]
  · simp [files, found_link hentry hroot hinput, ofKind]

theorem files_standardInput (hinput : root.same standardInput = true) :
    (files filter disk root).value = [] := by
  simp [files, found_standardInput hinput, ofKind]

/-- Whether a walk visits a file that it can reach is decided by the rules alone, unless the root is
taken for the standard input. -/
theorem mem_files_iff (hnames : disk.top.WellNamed) (h : Reaches disk root p) :
    (∃ file ∈ (files filter disk root).value, file.same p = true) ↔
      root.same standardInput = false ∧ filter.prunes root p = false := by
  cases hinput : root.same standardInput with
  | true => simp [files_standardInput hinput]
  | false =>
      rw [and_iff_right rfl]
      cases h with
      | root hroot hsame =>
          have hself := filter.prunes_self root
          have hstarts := Path.startsWith_of_within (Path.within_self root)
          rw [files_of_file hroot hinput, Ignore.Filter.prunes_congr hstarts (Path.same_symm hsame)]
          simp [hself, Path.same_symm hsame]
      | @below inside content executable place hread hat hsame =>
          have hroot := Disk.readFolder_iff.mp hread
          have hinside := Disk.wellNamed_of_entry hnames hroot
          have hne := Disk.ne_nil_of_entry hroot
          have hplace := hinside.of_at? hat
          have hstarts := Path.startsWith_of_within (Path.within_descend hplace hne)
          rw [files_of_folder hroot hinput,
            Ignore.Filter.prunes_congr hstarts (Path.same_symm hsame)]
          constructor
          · rintro ⟨file, hfile, hp⟩
            obtain ⟨other, -, hstands, rfl⟩ := (mem_ofKind_visit hinside hne).mp hfile
            have hboth := Path.same_trans hp hsame
            obtain rfl :=
              (Path.same_descend_iff (hstands.names hinside) hplace hne).mp hboth
            exact hstands.2
          · intro hkept
            have hstands : Stands filter root inside .file place := ⟨by rw [hat]; rfl, hkept⟩
            refine ⟨root.descend place, ?_, Path.same_symm hsame⟩
            refine (mem_ofKind_visit hinside hne).mpr ⟨place, ?_, hstands, rfl⟩
            rintro rfl
            cases hat

end Walk

end TodoIndex
