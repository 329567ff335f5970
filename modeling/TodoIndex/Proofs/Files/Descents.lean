import TodoIndex.Proofs.Files.Children
import TodoIndex.Proofs.Files.Passages
import TodoIndex.Proofs.Files.Writes

/-! # Finding what is in a directory

The path of an entry leads to the directory and on to the name, wherever the directory is found.
So what is found at a path below a directory is what stands at its place there.
-/

namespace TodoIndex

open Text (Bytes)

namespace Path

variable {root : Path}

/-- The paths of the entries of a directory differ in the names alone. -/
theorem exists_front (hroot : root.bytes ≠ []) :
    ∃ front, (root.bytes = front ∨ root.bytes = front ++ [slash]) ∧
      ∀ name, IsEntryName name → (root.child name).bytes = front ++ slash :: name := by
  have hrelative : ∀ name, IsEntryName name → (⟨name⟩ : Path).isAbsolute = false := by
    intro name hname
    cases name with
    | nil => rfl
    | cons c s => simp [isAbsolute, (List.ne_of_not_mem_cons hname.2.2).symm]
  by_cases hend : root.bytes.getLast? = some slash
  · obtain ⟨front, hfront⟩ := List.getLast?_eq_some_iff.mp hend
    refine ⟨front, .inr hfront, fun name hname => ?_⟩
    rw [child, join, if_neg (by simp [hrelative name hname]), if_pos (by simp [hend])]
    simp [hfront]
  · refine ⟨root.bytes, .inl rfl, fun name hname => ?_⟩
    rw [child, join, if_neg (by simp [hrelative name hname]), if_neg (by simp [hroot, hend])]

end Path

namespace Disk

variable {d : Disk} {root p : Path} {place : List Bytes} {name : Bytes} {entry : Entry}
  {inside below : Folder}

theorem ne_nil_of_seek {followLast : Bool} {spot : Spot} (h : d.seek followLast root = .ok spot) :
    root.bytes ≠ [] := by
  intro hempty
  have hrefusal : ∃ e, refusal? root = some e := by
    rw [refusal?, Path.isEmpty, hempty]
    exact ⟨_, rfl⟩
  obtain ⟨e, he⟩ := hrefusal
  rw [seek, he] at h
  cases h

/-- The path of an entry leads to the directory and on to the name. -/
theorem seek_child (h : d.seek true root = .ok (.found place .aFolder)) (hname : IsEntryName name)
    (hallowed : refusal? (root.child name) = none) :
    ∃ fewer, ∀ followLast,
      d.seek followLast (root.child name) = d.view.seek followLast fewer place [name] := by
  have hroot := ne_nil_of_seek h
  obtain ⟨front, hfront, hchild⟩ := Path.exists_front hroot
  have hbytes := hchild name hname
  have hstart : d.start (root.child name) = d.start root := by
    have habsolute : (root.child name).isAbsolute = root.isAbsolute := by
      rw [Path.isAbsolute, Path.isAbsolute, hbytes]
      rcases hfront with hfront | hfront <;> cases front <;> simp_all
    rw [start, start, habsolute]
  have hpieces : Path.pieces (root.child name).bytes = Path.pieces front ++ [name] := by
    rw [hbytes, Path.pieces_append_slash, Path.pieces_eq_singleton hname.2.2]
  replace h := (seek_eq_ok_iff.mp h).2
  simp only [seek_of_allowed hallowed, hstart, hpieces]
  have hshown : ∀ at_ entry, d.view at_ = some entry →
      (∀ content executable, entry ≠ .file content executable) → d.view at_ = some entry :=
    fun _ _ hentry _ => hentry
  rcases hfront with hfront | hfront
  · rw [hfront] at h
    obtain ⟨fewer, hgo⟩ := View.seek_behind_folder h hshown
    exact ⟨fewer, fun followLast => hgo followLast [name] (by simp)⟩
  · have hroots : Path.pieces root.bytes = Path.pieces front ++ [[]] := by
      rw [hfront, Path.pieces_append_slash]
      rfl
    rw [hroots] at h
    obtain ⟨fewer, hgo⟩ := View.seek_behind_folder h hshown
    refine ⟨fewer, fun followLast => ?_⟩
    have hmore := hgo followLast [name] (by simp)
    rw [List.append_assoc] at hmore
    rw [← hmore]
    exact (View.seek_idle_before (.inl rfl) fun hnone => hname.1 (.inl hnone)).symm

/-! ## What is at a path -/

/-- What is found stands at the place. -/
theorem at?_of_findFrom {top : Folder} {followLast : Bool} {start pieces : List Bytes}
    {onLink : (place pieces : List Bytes) → Except OsError Spot}
    (honLink : ∀ start pieces, onLink start pieces = .ok (.found place entry) →
      top.at? place = some entry)
    (h : findFrom top followLast onLink start pieces = .ok (.found place entry)) :
    top.at? place = some entry := by
  induction pieces generalizing start with
  | nil =>
      rw [findFrom] at h
      split at h
      · rename_i inside hinside
        cases h
        exact Folder.folderAt?_eq_some_iff.mp hinside
      · cases h
  | cons piece rest ih =>
      rw [findFrom, Folder.at?_append_singleton] at h
      split at h
      · exact ih h
      split at h
      · exact ih h
      split at h
      · cases h
      split at h
      · exact ih h
      · rename_i hthere
        split at h
        · cases h
          exact hthere
        · cases h
      · rename_i hthere
        split at h
        · cases h
          exact hthere
        · exact honLink _ _ h
      · split at h <;> cases h

theorem at?_of_find {followLast : Bool} (h : d.find followLast p = .ok (.found place entry)) :
    d.top.at? place = some entry := by
  have hwithin : ∀ links start pieces,
      findWithin d.top followLast links start pieces = .ok (.found place entry) →
      d.top.at? place = some entry := by
    intro links
    induction links with
    | zero => exact fun _ _ => at?_of_findFrom fun _ _ h => by cases h
    | succ links ih => exact fun _ _ => at?_of_findFrom ih
  unfold find at h
  split at h
  · cases h
  split at h
  · cases h
  split at h
  · cases h
  exact hwithin _ _ _ h

/-- A directory that is found without following a link at the end is found in either way. -/
theorem seek_of_entry (h : d.entry false p = .ok (.folder inside)) :
    ∃ place, d.top.folderAt? place = some inside ∧
      ∀ followLast, d.seek followLast p = .ok (.found place .aFolder) := by
  obtain ⟨place, hfind⟩ := find_of_entry h
  refine ⟨place, Folder.folderAt?_eq_some_iff.mpr (at?_of_find hfind), ?_⟩
  rintro (_ | _)
  · exact seek_of_find hfind
  · exact seek_of_find (find_followLast (by simp [Entry.kind]) hfind)

theorem entry_of_seek {followLast : Bool} (h : d.seek followLast p = .ok (.found place .aFolder))
    (hplace : d.top.folderAt? place = some inside) :
    d.entry followLast p = .ok (.folder inside) := by
  obtain ⟨there, hfind, -⟩ := find_of_seek_found h
  have hthere := (at?_of_find hfind).symm.trans (Folder.folderAt?_eq_some_iff.mp hplace)
  simp only [entry, hfind, Option.some.inj hthere]

/-! ## Below a directory -/

theorem refusal?_eq_none_iff :
    refusal? p = none ↔ 0 ∉ p.bytes ∧ p.bytes ≠ [] ∧ p.bytes.length ≤ maxPath := by
  unfold refusal? Path.isEmpty
  split
  · simp_all
  split
  · simp_all
  split <;> simp_all

/-- A path can be searched for if that of an entry of its directory can. -/
theorem refusal?_of_child (hroot : root.bytes ≠ []) (hname : IsEntryName name)
    (h : refusal? (root.child name) = none) : refusal? root = none := by
  obtain ⟨rest, hrest⟩ : root.bytes <+: (root.child name).bytes := by
    rcases Path.child_bytes hname hroot with hchild | ⟨init, hinit, hchild⟩
    · exact ⟨_, hchild.symm⟩
    · rw [hchild, hinit]
      exact ⟨name, by simp⟩
  rw [refusal?_eq_none_iff, ← hrest, List.mem_append, List.length_append] at h
  exact refusal?_eq_none_iff.mpr ⟨fun hzero => h.1 (.inl hzero), hroot, by omega⟩

theorem refusal?_of_descend (hplace : ∀ name ∈ place, IsEntryName name) (hroot : root.bytes ≠ [])
    (h : refusal? (root.descend place) = none) : refusal? root = none := by
  induction place generalizing root with
  | nil => exact h
  | cons name place ih =>
      obtain ⟨hname, hplace⟩ := List.forall_mem_cons.mp hplace
      exact refusal?_of_child hroot hname (ih hplace (Path.child_ne_nil hname hroot) h)

/-- The search for an entry that is a directory ends there. -/
theorem seek_child_folder {at_ : List Bytes}
    (hroot : ∀ followLast, d.seek followLast root = .ok (.found at_ .aFolder))
    (hat : d.top.folderAt? (at_ ++ [name]) = some below) (hname : IsEntryName name)
    (hshort : name.length ≤ maxName) (hallowed : refusal? (root.child name) = none)
    (followLast : Bool) :
    d.seek followLast (root.child name) = .ok (.found (at_ ++ [name]) .aFolder) := by
  obtain ⟨fewer, hseek⟩ := seek_child (hroot true) hname hallowed
  have hview : d.view (at_ ++ [name]) = some .aFolder := Folder.folderAt?_isSome_iff.mp ⟨_, hat⟩
  rw [hseek, View.seek_folder ⟨hname.1, hname.2.1, hshort⟩ hview, View.seek_nil, if_pos hview]

/-- A directory below another is found at its path, if the system takes the path and the names. -/
theorem seek_descend {at_ : List Bytes}
    (hroot : ∀ followLast, d.seek followLast root = .ok (.found at_ .aFolder))
    (hat : d.top.folderAt? at_ = some inside) (hbelow : inside.folderAt? place = some below)
    (hplace : ∀ name ∈ place, IsEntryName name ∧ name.length ≤ maxName)
    (hallowed : refusal? (root.descend place) = none) (followLast : Bool) :
    d.seek followLast (root.descend place) = .ok (.found (at_ ++ place) .aFolder) := by
  induction place generalizing root at_ inside with
  | nil =>
      rw [List.append_nil]
      exact hroot followLast
  | cons name place ih =>
      obtain ⟨⟨hname, hshort⟩, hplace⟩ := List.forall_mem_cons.mp hplace
      have hne := ne_nil_of_seek (hroot true)
      rw [Folder.folderAt?_cons] at hbelow
      split at hbelow
      · rename_i next hget
        have hnext : d.top.folderAt? (at_ ++ [name]) = some next := by
          rw [Folder.folderAt?_eq_some_iff, ← Folder.at?_append_singleton, hat]
          exact hget
        have hchild := seek_child_folder hroot hnext hname hshort
          (refusal?_of_descend (fun n hn => (hplace n hn).1) (Path.child_ne_nil hname hne) hallowed)
        have hrest := ih hchild hnext hbelow hplace hallowed
        rwa [List.append_assoc] at hrest
      · cases hbelow

/-- A path that the system takes: neither it nor a name on it is too long. -/
def Takes (p : Path) : Prop :=
  refusal? p = none ∧ ∀ c ∈ p.components, c.bytes.length ≤ maxName

instance (p : Path) : Decidable (Takes p) :=
  inferInstanceAs (Decidable (_ ∧ _))

/-- What is at the path of a directory below another is what stands at its place there. -/
theorem entry_descend (hroot : d.entry false root = .ok (.folder inside))
    (hbelow : inside.folderAt? place = some below) (hplace : ∀ name ∈ place, IsEntryName name)
    (htakes : Takes (root.descend place)) (followLast : Bool) :
    d.entry followLast (root.descend place) = .ok (.folder below) := by
  have hne := ne_nil_of_entry hroot
  have hshort : ∀ name ∈ place, IsEntryName name ∧ name.length ≤ maxName := by
    refine fun name hname => ⟨hplace name hname, htakes.2 (.normal name) ?_⟩
    rw [Path.components_descend hplace hne]
    exact List.mem_append_right _ (List.mem_map_of_mem hname)
  obtain ⟨at_, hat, hseek⟩ := seek_of_entry hroot
  refine entry_of_seek (seek_descend hseek hat hbelow hshort htakes.1 followLast) ?_
  rw [Folder.folderAt?_eq_some_iff, Folder.at?_append hat]
  exact Folder.folderAt?_eq_some_iff.mp hbelow

end Disk

end TodoIndex
