import TodoIndex.Proofs.Files.Children
import TodoIndex.Proofs.Files.Descents
import TodoIndex.Proofs.Files.Directories

/-! # Reading what was written

A file that is written is found at its path.  It is found as well at the path from the root, if the
working directory is there and this path is not too long.
-/

namespace TodoIndex

open Text (Bytes)

namespace View

variable {v : View} {followLast : Bool} {links : Nat} {place pieces rest : List Bytes}

/-- A search that follows links ends at the file that is written where it ended. -/
theorem seek_written {target : List Bytes} {content : Bytes} {executable : Bool} {spot : Spot}
    (hold : IsDraft (v target)) (hspot : spot.EndsAt target)
    (h : seek v true links place pieces = .ok spot) :
    seek (v.set target (some (.file content executable))) true links place pieces =
      .ok (.found target (.file content executable)) := by
  have hfinds := finds_of_seek h
  clear h
  -- What is met on the way is no file and is there, so it is not what is written.
  have hother : ∀ {at_ : List Bytes} {entry : Entry}, v at_ = some entry →
      (∀ content executable, entry ≠ .file content executable) →
      v.set target (some (.file content executable)) at_ = some entry := by
    intro at_ entry hat hentry
    refine (set_other ?_).trans hat
    rintro rfl
    rcases hold with hnone | ⟨old, executable, hfile⟩
    · rw [hnone] at hat
      cases hat
    · rw [hfile] at hat
      cases hat
      exact hentry _ _ rfl
  induction hfinds with
  | here hplace =>
      obtain rfl := hspot
      exact absurd hplace hold.ne_aFolder
  | idle hi _ ih =>
      rw [seek_idle hi]
      exact ih hspot
  | up _ ih =>
      rw [seek_up]
      exact ih hspot
  | free hn _ _ _ =>
      obtain ⟨rfl, hslash⟩ := hspot
      obtain rfl := List.isEmpty_iff.mp (by simpa using hslash)
      exact seek_file hn (set_same _ _ _)
  | file hn _ =>
      obtain rfl := hspot
      exact seek_file hn (set_same _ _ _)
  | link _ _ hlast => cases hlast
  | folder hn hview _ ih =>
      rw [seek_folder hn (hother hview (by simp))]
      exact ih hspot
  | behind hn hview hmore _ ih =>
      rw [seek_behind hn (hother hview (by simp)) hmore, follow_succ]
      exact ih hspot

/-- Through directories a search leads on. -/
theorem seek_through {f : Folder} {names : List Bytes} (hnames : ∀ name ∈ names, IsName name)
    (h : f.view (place ++ names) = some .aFolder) :
    seek f.view followLast links place (names ++ rest) =
      seek f.view followLast links (place ++ names) rest := by
  induction names generalizing place with
  | nil => rw [List.append_nil, List.nil_append]
  | cons name names ih =>
      obtain ⟨hname, hnames⟩ := List.forall_mem_cons.mp hnames
      have hsplit : place ++ name :: names = place ++ [name] ++ names := by simp
      rw [hsplit] at h ⊢
      obtain ⟨inside, hinside⟩ := Folder.folderAt?_isSome_iff.mpr h
      have habove := Folder.folderAt?_isSome_iff.mp (Folder.exists_folderAt?_of_append hinside)
      rw [List.cons_append, seek_folder hname habove, ih hnames h]

end View

namespace Disk

variable {d written : Disk} {p : Path} {content : Bytes} {followLast : Bool}

/-- A disk on which a file was written at a path. -/
structure Written (d written : Disk) (p : Path) (content : Bytes) : Prop where
  here : written.here = d.here
  folders : ∀ place, d.view place = some .aFolder → written.view place = some .aFolder
  found : ∃ target executable, written.seek true p = .ok (.found target (.file content executable))

theorem written_of_writeFile (h : d.writeFile p content = (.ok (), written)) :
    Written d written p content := by
  rcases d.writeFile_cases p content with
    ⟨e, he⟩ | ⟨spot, target, executable, last, hseek, hspot, hdraft, hlast, hhere, hview⟩
  · rw [he] at h
    cases h
  rw [hlast] at h
  cases h
  refine ⟨hhere, fun place hplace => ?_, target, executable, ?_⟩
  · rw [hview, View.set_other]
    · exact hplace
    · rintro rfl
      exact hdraft.ne_aFolder hplace
  · obtain ⟨hallowed, hseek⟩ := seek_eq_ok_iff.mp hseek
    rw [seek_of_allowed hallowed, start_congr hhere, hview]
    exact View.seek_written hdraft hspot hseek

theorem Written.of_grown {first : Disk} (hgrown : Grown first d) (h : Written d written p content) :
    Written first written p content :=
  ⟨h.here.trans hgrown.here, fun place hplace => h.folders place (hgrown.kept place _ hplace),
    h.found⟩

theorem entry_of_file {target : List Bytes} {executable : Bool}
    (h : d.seek followLast p = .ok (.found target (.file content executable))) :
    d.entry followLast p = .ok (.file content executable) := by
  rw [entry, find_of_seek_file h]

/-! ## From the root -/

theorem pieces_intercalate {name : Bytes} {names : List Bytes}
    (h : ∀ n ∈ name :: names, Path.slash ∉ n) :
    Path.pieces (List.intercalate [Path.slash] (name :: names)) = name :: names := by
  induction names generalizing name with
  | nil => simpa [List.intercalate] using Path.pieces_eq_singleton (h name List.mem_cons_self)
  | cons next names ih =>
      obtain ⟨hname, hnames⟩ := List.forall_mem_cons.mp h
      rw [List.intercalate_cons_cons, List.append_assoc, List.singleton_append,
        Path.pieces_append_slash, Path.pieces_eq_singleton hname, ih hnames]
      rfl

/-- The pieces of a relative path seen from the root. -/
theorem pieces_join {here : List Bytes} (hhere : ∀ name ∈ here, IsEntryName name)
    (hp : p.isAbsolute = false) :
    Path.pieces ((pathOf here).join p).bytes = [] :: (here ++ Path.pieces p.bytes) := by
  cases here with
  | nil =>
      have hroot : (pathOf []).bytes = [Path.slash] := rfl
      rw [Path.join, hp, if_neg (by simp), if_pos (by simp [hroot]), hroot]
      exact Path.pieces_cons_slash _
  | cons name names =>
      have hpieces : Path.pieces (pathOf (name :: names)).bytes = [] :: name :: names := by
        rw [pathOf, Path.pieces_cons_slash, pieces_intercalate fun n hn => (hhere n hn).2.2]
      have hend : (pathOf (name :: names)).bytes.getLast? ≠ some Path.slash := by
        intro hslash
        obtain ⟨init, hinit⟩ := List.getLast?_eq_some_iff.mp hslash
        have hlast : ([] : Bytes) ∈ name :: names := by
          have hboth : Path.pieces init ++ [[]] = [] :: name :: names := by
            rw [← hpieces, hinit, Path.pieces_append_slash]
            rfl
          have hempty := congrArg List.getLast? hboth
          rw [List.getLast?_concat, List.getLast?_cons_cons] at hempty
          exact List.mem_of_getLast? hempty.symm
        exact (hhere _ hlast).1 (.inl rfl)
      have hempty : (pathOf (name :: names)).bytes.isEmpty = false := rfl
      rw [Path.join, hp, if_neg (by simp), if_neg (by simpa [hempty] using hend),
        Path.pieces_append_slash, hpieces]
      rfl

/-- The search for a relative path is that for its path from the root, if the working directory is
there and neither this path nor a name on it is too long. -/
theorem seek_from_root (hhere : d.view d.here = some .aFolder)
    (hnames : ∀ name ∈ d.here, IsEntryName name ∧ name.length ≤ maxName)
    (hp : p.isAbsolute = false) (hallowed : refusal? ((pathOf d.here).join p) = none)
    (hrelative : refusal? p = none) :
    d.seek followLast ((pathOf d.here).join p) = d.seek followLast p := by
  have hpieces := pieces_join (fun name hname => (hnames name hname).1) hp
  have habsolute : ((pathOf d.here).join p).isAbsolute = true := by
    rw [Path.join, hp, if_neg (by simp)]
    split <;> rfl
  have hnames' : ∀ name ∈ d.here, IsName name := fun name hname =>
    ⟨(hnames name hname).1.1, (hnames name hname).1.2.1, (hnames name hname).2⟩
  rw [seek, seek, hallowed, hrelative, start, start, habsolute, hp, if_pos rfl, if_neg (by simp),
    hpieces]
  dsimp only
  rw [View.seek_idle (.inl rfl)]
  exact View.seek_through hnames' hhere

end Disk

end TodoIndex
