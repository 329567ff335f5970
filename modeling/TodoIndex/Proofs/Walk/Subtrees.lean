import TodoIndex.Proofs.Files.Descents
import TodoIndex.Proofs.Walk.Span

/-! # Walks from below a root

A walk judges a path by its spelling, and a directory below a root is spelled by its place there.
So from such a directory, unless it is pruned itself, a walk finds what the walk from the root
finds below it, in the same spelling.  What is on the disk below a root is told by the same
spellings.
-/

namespace TodoIndex

open Text (Bytes)

namespace Path

theorem descend_append (root : Path) (place below : List Bytes) :
    root.descend (place ++ below) = (root.descend place).descend below :=
  List.foldl_append

theorem components_ne_nil {p : Path} (h : p.bytes ≠ []) : p.components ≠ [] := by
  obtain ⟨b, s, hbytes⟩ := List.exists_cons_of_ne_nil h
  obtain ⟨first, rest, hpieces⟩ := List.exists_cons_of_ne_nil (pieces_ne_nil (b :: s))
  have hp : p.components = components ⟨b :: s⟩ := congrArg components (congrArg mk hbytes)
  rw [hp, components_cons hpieces]
  split
  · simp
  split
  · simp
  · -- The first piece is neither empty nor a dot, so it is a component.
    rename_i hslash hdot
    obtain ⟨piece, pieces', hs⟩ := List.exists_cons_of_ne_nil (pieces_ne_nil s)
    obtain rfl : b :: piece = first := by
      rw [pieces_cons_of_ne hslash hs] at hpieces
      exact (List.cons.inj hpieces).1
    have hsaid : component? (b :: piece) ≠ none := by
      unfold component?
      rw [if_neg (by simpa using hdot)]
      split <;> simp
    obtain ⟨c, hc⟩ := Option.ne_none_iff_exists'.mp hsaid
    simp [hc]

end Path

namespace Ignore.Filter

variable {filter : Filter}

theorem prunesBelow_append (filter : Filter) (base : Path) (place below : List Bytes) :
    filter.prunesBelow base ((place ++ below).map .normal) =
      (filter.prunesBelow base (place.map .normal) ||
        filter.prunesBelow (base.descend place) (below.map .normal)) := by
  induction place generalizing base with
  | nil => rfl
  | cons name place ih =>
      rw [List.cons_append, prunesBelow_cons, prunesBelow_cons, ih, Bool.or_assoc,
        Path.descend_cons]

theorem prunesBelow_empty (base : Path) (components : List Path.Component) :
    empty.prunesBelow base components = false := by
  induction components generalizing base with
  | nil => rfl
  | cons c rest ih => exact ih (base.child c.bytes)

/-- What is above something that is not pruned is not pruned. -/
theorem prunes_of_within {root p g : Path} (h : filter.prunes root p = false)
    (hg : g.within root = true) (hpg : p.within g = true) : filter.prunes root g = false := by
  obtain ⟨place, hplace⟩ := Path.within_iff.mp hg
  obtain ⟨rest, hrest⟩ := Path.within_iff.mp hpg
  rw [hplace, List.append_assoc] at hrest
  rw [prunes, Path.below?_eq_some_iff.mpr hrest] at h
  rw [prunes, Path.below?_eq_some_iff.mpr hplace]
  exact prunesBelow_of_append h

end Ignore.Filter

namespace Walk

variable {filter : Ignore.Filter} {disk : Disk} {root p : Path} {inside below : Folder}
  {place rest : List Bytes} {kind : EntryKind}

/-! ## Directories of a walk -/

/-- The directories that are met below a root and the root itself. -/
theorem mem_ofKind_folder (hnames : inside.WellNamed) (hroot : root.bytes ≠ []) :
    p ∈ ofKind .folder ((root, .folder) :: visit filter root inside.arranged) ↔
      ∃ place, Stands filter root inside .folder place ∧ root.descend place = p := by
  have hcons : ofKind .folder ((root, .folder) :: visit filter root inside.arranged) =
      root :: ofKind .folder (visit filter root inside.arranged) := rfl
  have hself : Stands filter root inside .folder [] := by
    rw [stands_iff_prunesBelow hnames hroot]
    exact ⟨by simp [Entry.kind], rfl⟩
  rw [hcons, List.mem_cons, mem_ofKind_visit hnames hroot]
  constructor
  · rintro (rfl | ⟨place, -, hstands, rfl⟩)
    · exact ⟨[], hself, rfl⟩
    · exact ⟨place, hstands, rfl⟩
  · rintro ⟨place, hstands, rfl⟩
    by_cases hplace : place = []
    · subst hplace
      exact .inl rfl
    · exact .inr ⟨place, hplace, hstands, rfl⟩

theorem mem_folders (hroot : disk.entry false root = .ok (.folder inside))
    (hnames : inside.WellNamed) (hinput : root.same standardInput = false) :
    p ∈ (folders filter disk root).value ↔
      ∃ place, Stands filter root inside .folder place ∧ root.descend place = p := by
  rw [← mem_ofKind_folder hnames (Disk.ne_nil_of_entry hroot)]
  simp [folders, found_folder hroot hinput]

theorem kind_folder_iff : (inside.at? place).map Entry.kind = some .folder ↔
    ∃ below, inside.folderAt? place = some below := by
  simp only [Folder.folderAt?_eq_some_iff]
  constructor
  · intro h
    obtain ⟨entry, hat, hkind⟩ := Option.map_eq_some_iff.mp h
    cases entry with
    | folder below => exact ⟨below, hat⟩
    | file content executable => cases hkind
    | link target => cases hkind
  · rintro ⟨below, hat⟩
    rw [hat]
    rfl

/-! ## From a directory below the root -/

/-- What stands below a directory that is not pruned, seen from there and seen from the root. -/
theorem stands_append (hnames : inside.WellNamed) (hroot : root.bytes ≠ [])
    (hbelow : inside.folderAt? place = some below)
    (hkept : filter.prunesBelow root (place.map .normal) = false) :
    Stands filter root inside kind (place ++ rest) ↔
      Stands filter (root.descend place) below kind rest := by
  have hat := Folder.folderAt?_eq_some_iff.mp hbelow
  have hplace := hnames.of_at? hat
  rw [stands_iff_prunesBelow hnames hroot,
    stands_iff_prunesBelow (hnames.of_folderAt? hbelow) (Path.descend_ne_nil hplace hroot),
    Folder.at?_append hbelow, Ignore.Filter.prunesBelow_append, hkept, Bool.false_or]

/-- The name of the standard input is that of no place below a directory. -/
theorem same_standardInput_below (hplace : ∀ name ∈ place, IsEntryName name)
    (hroot : root.bytes ≠ []) (hbelow : place ≠ []) :
    (root.descend place).same standardInput = false := by
  rw [Bool.eq_false_iff]
  intro hsame
  have hlength : (root.descend place).components.length = 1 := by
    rw [Path.same_iff.mp hsame]
    rfl
  have hpos := List.length_pos_iff.mpr (Path.components_ne_nil hroot)
  have hmore := List.length_pos_iff.mpr hbelow
  rw [Path.components_descend hplace hroot, List.length_append, List.length_map] at hlength
  omega

theorem same_standardInput_descend (hplace : ∀ name ∈ place, IsEntryName name)
    (hroot : root.bytes ≠ []) (hinput : root.same standardInput = false) :
    (root.descend place).same standardInput = false := by
  by_cases hbelow : place = []
  · rw [hbelow]
    exact hinput
  · exact same_standardInput_below hplace hroot hbelow

/-- From a directory below the root a walk finds what the walk from the root finds there. -/
theorem mem_folders_descend (hroot : disk.entry false root = .ok (.folder inside))
    (hnames : inside.WellNamed) (hinput : root.same standardInput = false)
    (hbelow : inside.folderAt? place = some below)
    (hfound : disk.entry false (root.descend place) = .ok (.folder below))
    (hkept : filter.prunesBelow root (place.map .normal) = false) :
    p ∈ (folders filter disk (root.descend place)).value ↔
      ∃ rest, Stands filter root inside .folder (place ++ rest) ∧
        root.descend (place ++ rest) = p := by
  have hne := Disk.ne_nil_of_entry hroot
  have hplace := hnames.of_at? (Folder.folderAt?_eq_some_iff.mp hbelow)
  rw [mem_folders hfound (hnames.of_folderAt? hbelow)
    (same_standardInput_descend hplace hne hinput)]
  simp only [stands_append hnames hne hbelow hkept, Path.descend_append]

end Walk

/-! ## What is on a disk below a root -/

namespace Disk

variable {d : Disk} {root p g : Path} {filter : Ignore.Filter}

/-- What is in a directory that is none by way of a link. -/
def inside? (d : Disk) (root : Path) : Option Folder :=
  match d.entry false root with
  | .ok (.folder inside) => some inside
  | _ => none

/-- A root is a directory, and no link, with nothing but names of entries in it and below. -/
def IsRoot (d : Disk) (root : Path) : Prop :=
  ∃ inside ∈ d.inside? root, inside.WellNamed

instance (d : Disk) (root : Path) : Decidable (d.IsRoot root) :=
  inferInstanceAs (Decidable (∃ inside ∈ d.inside? root, inside.WellNamed))

/-- A directory and all that is below it, as a walk without rules meets it. -/
def tree (d : Disk) (root : Path) : List (Path × EntryKind) :=
  match d.inside? root with
  | some inside => (root, .folder) :: Walk.visit .empty root inside.arranged
  | none => []

/-- The directories among it. -/
def foldersBelow (d : Disk) (root : Path) : List Path :=
  Walk.ofKind .folder (d.tree root)

theorem inside?_eq_some_iff {inside : Folder} :
    d.inside? root = some inside ↔ d.entry false root = .ok (.folder inside) := by
  unfold inside?
  split <;> simp_all

theorem mem_foldersBelow_iff : p ∈ d.foldersBelow root ↔ (p, .folder) ∈ d.tree root := by
  simp [foldersBelow, Walk.ofKind]

theorem mem_foldersBelow_of_inside {inside : Folder}
    (hroot : d.entry false root = .ok (.folder inside)) (hnames : inside.WellNamed) :
    p ∈ d.foldersBelow root ↔
      ∃ place, (inside.at? place).map Entry.kind = some .folder ∧ root.descend place = p := by
  have hne := ne_nil_of_entry hroot
  have hall : ∀ place, Walk.Stands .empty root inside .folder place ↔
      (inside.at? place).map Entry.kind = some .folder := by
    intro place
    rw [Walk.stands_iff_prunesBelow hnames hne, Ignore.Filter.prunesBelow_empty]
    exact and_iff_left rfl
  simp only [foldersBelow, tree, inside?_eq_some_iff.mpr hroot,
    Walk.mem_ofKind_folder hnames hne, hall]

/-- A walk finds the directories below its root that are not pruned. -/
theorem mem_folders_iff (h : d.IsRoot root) (hinput : root.same Walk.standardInput = false) :
    p ∈ (Walk.folders filter d root).value ↔
      p ∈ d.foldersBelow root ∧ filter.prunes root p = false := by
  obtain ⟨inside, hinside, hnames⟩ := h
  have hroot := inside?_eq_some_iff.mp hinside
  rw [Walk.mem_folders hroot hnames hinput, mem_foldersBelow_of_inside hroot hnames]
  constructor
  · rintro ⟨place, ⟨hkind, hkept⟩, rfl⟩
    exact ⟨⟨place, hkind, rfl⟩, hkept⟩
  · rintro ⟨⟨place, hkind, rfl⟩, hkept⟩
    exact ⟨place, ⟨hkind, hkept⟩, rfl⟩

theorem within_of_mem (h : d.IsRoot root) (hp : p ∈ d.foldersBelow root) :
    p.within root = true := by
  obtain ⟨inside, hinside, hnames⟩ := h
  have hroot := inside?_eq_some_iff.mp hinside
  obtain ⟨place, hkind, rfl⟩ := (mem_foldersBelow_of_inside hroot hnames).mp hp
  obtain ⟨below, hbelow⟩ := Walk.kind_folder_iff.mp hkind
  exact Path.within_descend (hnames.of_at? (Folder.folderAt?_eq_some_iff.mp hbelow))
    (ne_nil_of_entry hroot)

/-- A directory is met in one spelling. -/
theorem eq_of_same (h : d.IsRoot root) (hp : p ∈ d.foldersBelow root)
    (hg : g ∈ d.foldersBelow root) (hsame : p.same g = true) : p = g := by
  obtain ⟨inside, hinside, hnames⟩ := h
  have hroot := inside?_eq_some_iff.mp hinside
  obtain ⟨place, hkind, rfl⟩ := (mem_foldersBelow_of_inside hroot hnames).mp hp
  obtain ⟨other, hother, rfl⟩ := (mem_foldersBelow_of_inside hroot hnames).mp hg
  obtain ⟨_, hat, -⟩ := Option.map_eq_some_iff.mp hkind
  obtain ⟨_, hatOther, -⟩ := Option.map_eq_some_iff.mp hother
  rw [(Path.same_descend_iff (hnames.of_at? hat) (hnames.of_at? hatOther)
    (ne_nil_of_entry hroot)).mp hsame]

/-- The places of a directory and of one within it. -/
theorem exists_places {inside : Folder} (hroot : d.entry false root = .ok (.folder inside))
    (hnames : inside.WellNamed) (hp : p ∈ d.foldersBelow root) (hg : g.within root = true)
    (hpg : p.within g = true) :
    ∃ place rest below, inside.folderAt? (place ++ rest) = some below ∧
      root.descend (place ++ rest) = p ∧ g.same (root.descend place) = true := by
  obtain ⟨whole, hkind, rfl⟩ := (mem_foldersBelow_of_inside hroot hnames).mp hp
  obtain ⟨below, hbelow⟩ := Walk.kind_folder_iff.mp hkind
  have hwhole := hnames.of_at? (Folder.folderAt?_eq_some_iff.mp hbelow)
  obtain ⟨place, hplace⟩ := Path.within_iff.mp hg
  obtain ⟨rest, hrest⟩ := Path.within_iff.mp hpg
  have hne := ne_nil_of_entry hroot
  obtain rfl : whole = place ++ rest := by
    rw [Path.components_descend hwhole hne, hplace, List.append_assoc,
      List.append_cancel_left_eq, ← List.map_append] at hrest
    exact (List.map_inj_right fun _ _ h => Path.Component.normal.inj h).mp hrest
  refine ⟨place, rest, below, hbelow, rfl, Path.same_iff.mpr ?_⟩
  rw [Path.components_descend (fun n hn => hwhole n (List.mem_append_left _ hn)) hne, hplace]

/-- Between a root and a directory below it are directories. -/
theorem exists_above (h : d.IsRoot root) (hp : p ∈ d.foldersBelow root)
    (hg : g.within root = true) (hpg : p.within g = true) :
    ∃ above ∈ d.foldersBelow root, g.same above = true := by
  obtain ⟨inside, hinside, hnames⟩ := h
  have hroot := inside?_eq_some_iff.mp hinside
  obtain ⟨place, rest, below, hbelow, -, hsame⟩ := exists_places hroot hnames hp hg hpg
  obtain ⟨above, habove⟩ := Folder.exists_folderAt?_of_append hbelow
  exact ⟨_, (mem_foldersBelow_of_inside hroot hnames).mpr
    ⟨place, Walk.kind_folder_iff.mpr ⟨above, habove⟩, rfl⟩, hsame⟩

theorem isFolder_of_mem (h : d.IsRoot root) (hp : p ∈ d.foldersBelow root) (htakes : Takes p) :
    d.isFolder p = true := by
  obtain ⟨inside, hinside, hnames⟩ := h
  have hroot := inside?_eq_some_iff.mp hinside
  obtain ⟨place, hkind, rfl⟩ := (mem_foldersBelow_of_inside hroot hnames).mp hp
  obtain ⟨below, hbelow⟩ := Walk.kind_folder_iff.mp hkind
  have hplace := hnames.of_at? (Folder.folderAt?_eq_some_iff.mp hbelow)
  simp [isFolder, entry_descend hroot hbelow hplace htakes]

/-- From a directory that is not pruned a walk finds the directories within it that are not. -/
theorem mem_folders_below_iff (h : d.IsRoot root) (hinput : root.same Walk.standardInput = false)
    (hg : g ∈ d.foldersBelow root) (htakes : Takes g) (hkept : filter.prunes root g = false) :
    p ∈ (Walk.folders filter d g).value ↔
      p ∈ d.foldersBelow root ∧ filter.prunes root p = false ∧ p.within g = true := by
  obtain ⟨inside, hinside, hnames⟩ := h
  have hroot := inside?_eq_some_iff.mp hinside
  have hne := ne_nil_of_entry hroot
  obtain ⟨place, hkind, rfl⟩ := (mem_foldersBelow_of_inside hroot hnames).mp hg
  obtain ⟨below, hbelow⟩ := Walk.kind_folder_iff.mp hkind
  have hplace := hnames.of_at? (Folder.folderAt?_eq_some_iff.mp hbelow)
  rw [Ignore.Filter.prunes_descend hplace hne] at hkept
  rw [Walk.mem_folders_descend hroot hnames hinput hbelow
    (entry_descend hroot hbelow hplace htakes false) hkept]
  constructor
  · rintro ⟨rest, ⟨hkind, hkept⟩, rfl⟩
    obtain ⟨_, hat, -⟩ := Option.map_eq_some_iff.mp hkind
    refine ⟨(mem_foldersBelow_of_inside hroot hnames).mpr ⟨_, hkind, rfl⟩, hkept, ?_⟩
    refine Path.within_iff.mpr ⟨rest, ?_⟩
    rw [Path.components_descend (hnames.of_at? hat) hne, Path.components_descend hplace hne,
      List.map_append, List.append_assoc]
  · rintro ⟨hp, hkept, hwithin⟩
    obtain ⟨other, rest, deeper, hdeeper, rfl, hsame⟩ :=
      exists_places hroot hnames hp (Path.within_descend hplace hne) hwithin
    have hwhole := hnames.of_at? (Folder.folderAt?_eq_some_iff.mp hdeeper)
    obtain rfl : place = other :=
      (Path.same_descend_iff hplace (fun n hn => hwhole n (List.mem_append_left _ hn)) hne).mp hsame
    exact ⟨rest, ⟨Walk.kind_folder_iff.mpr ⟨deeper, hdeeper⟩, hkept⟩, rfl⟩

end Disk

end TodoIndex
