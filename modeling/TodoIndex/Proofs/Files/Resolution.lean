import TodoIndex.Proofs.Files.View

/-! # Resolving paths in a view

`seek` resolves the pieces of a path in a flat view, and finding a path on a disk is seeking it in
the view of the disk.  A search depends on nothing but the places it looks at: the lemmas below
say what happens to it when the view changes at names it never meets, when a missing place is
filled, and when the place it ends at is given another file.
-/

namespace TodoIndex

open Text (Bytes)

/-- What stands at every place of a disk, directories without their contents. -/
abbrev View := List Bytes → Option Entry

namespace Spot

/-- The end of a path, a directory without its contents. -/
def bare : Spot → Spot
  | .found place entry => .found place entry.bare
  | spot => spot

end Spot

/-- The pieces that say nothing. -/
def IsIdle (piece : Bytes) : Prop :=
  piece = [] ∨ piece = [Path.dot]

instance (piece : Bytes) : Decidable (IsIdle piece) :=
  inferInstanceAs (Decidable (_ ∨ _))

/-- A piece that names an entry of a directory. -/
structure IsName (piece : Bytes) : Prop where
  not_idle : ¬ IsIdle piece
  not_up : piece ≠ [Path.dot, Path.dot]
  short : piece.length ≤ Disk.maxName

namespace View

/-- The place from which the target of a link is followed. -/
def turn (place : List Bytes) (target : Bytes) : List Bytes :=
  if target.head? = some Path.slash then [] else place

/-- Follow the pieces of a path from a place, as `Disk.findFrom` does. -/
def seekFrom (v : View) (followLast : Bool)
    (onLink : (place pieces : List Bytes) → Except OsError Spot) :
    (place pieces : List Bytes) → Except OsError Spot
  | place, [] =>
      if v place = some .aFolder then .ok (.found place .aFolder) else .error .notFound
  | place, piece :: rest =>
      if IsIdle piece then seekFrom v followLast onLink place rest
      else if piece = [Path.dot, Path.dot] then seekFrom v followLast onLink place.dropLast rest
      else if piece.length > Disk.maxName then .error .nameTooLong
      else
        match v (place ++ [piece]) with
        | some (.folder _) => seekFrom v followLast onLink (place ++ [piece]) rest
        | some (.file content executable) =>
            if rest = [] then .ok (.found (place ++ [piece]) (.file content executable))
            else .error .notDirectory
        | some (.link target) =>
            if rest = [] && !followLast then .ok (.found (place ++ [piece]) (.link target))
            else onLink (turn place target) (Path.pieces target ++ rest)
        | none =>
            if v place = some .aFolder ∧ rest.all (·.isEmpty) then
              .ok (.free place piece !rest.isEmpty)
            else .error .notFound

/-- Follow the pieces of a path, over at most so many links. -/
def seek (v : View) (followLast : Bool) :
    (links : Nat) → (place pieces : List Bytes) → Except OsError Spot
  | 0 => seekFrom v followLast fun _ _ => .error .tooManyLinks
  | links + 1 => seekFrom v followLast (seek v followLast links)

/-- What is done with the target of a link when so many links may be followed. -/
def follow (v : View) (followLast : Bool) : (links : Nat) → (place pieces : List Bytes) →
    Except OsError Spot
  | 0 => fun _ _ => .error .tooManyLinks
  | links + 1 => seek v followLast links

theorem seek_eq (v : View) (followLast : Bool) (links : Nat) :
    seek v followLast links = seekFrom v followLast (follow v followLast links) := by
  cases links <;> rfl

variable {v w : View} {followLast : Bool} {links : Nat} {place rest : List Bytes} {piece : Bytes}

/-! ## Single pieces -/

theorem seek_nil : seek v followLast links place [] =
    if v place = some .aFolder then .ok (.found place .aFolder) else .error .notFound := by
  rw [seek_eq, seekFrom]

theorem seek_idle (h : IsIdle piece) :
    seek v followLast links place (piece :: rest) = seek v followLast links place rest := by
  rw [seek_eq, seekFrom, if_pos h]

theorem seek_up : seek v followLast links place ([Path.dot, Path.dot] :: rest) =
    seek v followLast links place.dropLast rest := by
  rw [seek_eq, seekFrom, if_neg (by simp [IsIdle]), if_pos rfl]

theorem seek_long (hi : ¬ IsIdle piece) (hu : piece ≠ [Path.dot, Path.dot])
    (hl : ¬ piece.length ≤ Disk.maxName) :
    seek v followLast links place (piece :: rest) = .error .nameTooLong := by
  rw [seek_eq, seekFrom, if_neg hi, if_neg hu, if_pos (Nat.lt_of_not_le hl)]

theorem seek_name (h : IsName piece) : seek v followLast links place (piece :: rest) =
    match v (place ++ [piece]) with
    | some (.folder _) => seek v followLast links (place ++ [piece]) rest
    | some (.file content executable) =>
        if rest = [] then .ok (.found (place ++ [piece]) (.file content executable))
        else .error .notDirectory
    | some (.link target) =>
        if rest = [] && !followLast then .ok (.found (place ++ [piece]) (.link target))
        else follow v followLast links (turn place target) (Path.pieces target ++ rest)
    | none =>
        if v place = some .aFolder ∧ rest.all (·.isEmpty) then
          .ok (.free place piece !rest.isEmpty)
        else .error .notFound := by
  rw [seek_eq, seekFrom, if_neg h.not_idle, if_neg h.not_up,
    if_neg (Nat.not_lt_of_le h.short)]

/-- A piece says nothing, goes up, is too long, or is a name. -/
theorem piece_cases (piece : Bytes) :
    IsIdle piece ∨ piece = [Path.dot, Path.dot] ∨
      (¬ IsIdle piece ∧ piece ≠ [Path.dot, Path.dot] ∧ ¬ piece.length ≤ Disk.maxName) ∨
      IsName piece := by
  by_cases hi : IsIdle piece
  · exact .inl hi
  by_cases hu : piece = [Path.dot, Path.dot]
  · exact .inr (.inl hu)
  by_cases hl : piece.length ≤ Disk.maxName
  · exact .inr (.inr (.inr ⟨hi, hu, hl⟩))
  · exact .inr (.inr (.inl ⟨hi, hu, hl⟩))

@[simp] theorem follow_zero : follow v followLast 0 place rest = .error .tooManyLinks := rfl

@[simp] theorem follow_succ :
    follow v followLast (links + 1) place rest = seek v followLast links place rest := rfl

/-- The induction along a search: over the pieces, and over the links that are left for what is
behind a link. -/
theorem seek_induction {motive : Nat → List Bytes → List Bytes → Prop}
    (nil : ∀ links place, motive links place [])
    (idle : ∀ links place piece rest, IsIdle piece → motive links place rest →
      motive links place (piece :: rest))
    (up : ∀ links place rest, motive links place.dropLast rest →
      motive links place ([Path.dot, Path.dot] :: rest))
    (long : ∀ links place piece rest, ¬ IsIdle piece → piece ≠ [Path.dot, Path.dot] →
      ¬ piece.length ≤ Disk.maxName → motive links place (piece :: rest))
    (name : ∀ links place piece rest, IsName piece → motive links (place ++ [piece]) rest →
      (∀ fewer target, links = fewer + 1 →
        motive fewer (turn place target) (Path.pieces target ++ rest)) →
      motive links place (piece :: rest)) :
    ∀ links place pieces, motive links place pieces := by
  intro links
  induction links with
  | zero =>
      intro place pieces
      induction pieces generalizing place with
      | nil => exact nil _ _
      | cons piece rest ih =>
          rcases piece_cases piece with hi | rfl | ⟨hi, hu, hl⟩ | hn
          · exact idle _ _ _ _ hi (ih _)
          · exact up _ _ _ (ih _)
          · exact long _ _ _ _ hi hu hl
          · exact name _ _ _ _ hn (ih _) (fun fewer _ h => by omega)
  | succ links ihLinks =>
      intro place pieces
      induction pieces generalizing place with
      | nil => exact nil _ _
      | cons piece rest ih =>
          rcases piece_cases piece with hi | rfl | ⟨hi, hu, hl⟩ | hn
          · exact idle _ _ _ _ hi (ih _)
          · exact up _ _ _ (ih _)
          · exact long _ _ _ _ hi hu hl
          · refine name _ _ _ _ hn (ih _) (fun fewer target h => ?_)
            obtain rfl : links = fewer := by omega
            exact ihLinks _ _

/-! ## What is found -/

/-- The ways in which a search comes to the end of a path. -/
inductive Finds (v : View) (followLast : Bool) : Nat → (place pieces : List Bytes) → Spot →
    Prop where
  | here {links : Nat} {place : List Bytes} : v place = some .aFolder →
      Finds v followLast links place [] (.found place .aFolder)
  | idle {links : Nat} {place rest : List Bytes} {piece : Bytes} {spot : Spot} : IsIdle piece →
      Finds v followLast links place rest spot → Finds v followLast links place (piece :: rest) spot
  | up {links : Nat} {place rest : List Bytes} {spot : Spot} :
      Finds v followLast links place.dropLast rest spot →
      Finds v followLast links place ([Path.dot, Path.dot] :: rest) spot
  | free {links : Nat} {place rest : List Bytes} {piece : Bytes} : IsName piece →
      v (place ++ [piece]) = none → v place = some .aFolder → rest.all (·.isEmpty) = true →
      Finds v followLast links place (piece :: rest) (.free place piece !rest.isEmpty)
  | file {links : Nat} {place : List Bytes} {piece content : Bytes} {executable : Bool} :
      IsName piece → v (place ++ [piece]) = some (.file content executable) →
      Finds v followLast links place [piece] (.found (place ++ [piece]) (.file content executable))
  | link {links : Nat} {place : List Bytes} {piece target : Bytes} : IsName piece →
      v (place ++ [piece]) = some (.link target) → followLast = false →
      Finds v followLast links place [piece] (.found (place ++ [piece]) (.link target))
  | folder {links : Nat} {place rest : List Bytes} {piece : Bytes} {spot : Spot}
      {inside : Folder} : IsName piece → v (place ++ [piece]) = some (.folder inside) →
      Finds v followLast links (place ++ [piece]) rest spot →
      Finds v followLast links place (piece :: rest) spot
  /-- The search goes on behind a link. -/
  | behind {fewer : Nat} {place rest : List Bytes} {piece target : Bytes} {spot : Spot} :
      IsName piece → v (place ++ [piece]) = some (.link target) →
      ¬ (rest = [] ∧ followLast = false) →
      Finds v followLast fewer (turn place target) (Path.pieces target ++ rest) spot →
      Finds v followLast (fewer + 1) place (piece :: rest) spot

theorem seek_free (hn : IsName piece) (hview : v (place ++ [piece]) = none)
    (hplace : v place = some .aFolder) (hrest : rest.all (·.isEmpty) = true) :
    seek v followLast links place (piece :: rest) = .ok (.free place piece !rest.isEmpty) := by
  rw [seek_name hn, hview]
  exact if_pos ⟨hplace, hrest⟩

theorem seek_file {content : Bytes} {executable : Bool} (hn : IsName piece)
    (hview : v (place ++ [piece]) = some (.file content executable)) :
    seek v followLast links place [piece] =
      .ok (.found (place ++ [piece]) (.file content executable)) := by
  rw [seek_name hn, hview]
  exact if_pos rfl

theorem seek_link {target : Bytes} (hn : IsName piece)
    (hview : v (place ++ [piece]) = some (.link target)) :
    seek v false links place [piece] = .ok (.found (place ++ [piece]) (.link target)) := by
  rw [seek_name hn, hview]
  exact if_pos rfl

theorem seek_folder {inside : Folder} (hn : IsName piece)
    (hview : v (place ++ [piece]) = some (.folder inside)) :
    seek v followLast links place (piece :: rest) =
      seek v followLast links (place ++ [piece]) rest := by
  rw [seek_name hn, hview]

theorem seek_behind {target : Bytes} (hn : IsName piece)
    (hview : v (place ++ [piece]) = some (.link target))
    (hmore : ¬ (rest = [] ∧ followLast = false)) :
    seek v followLast links place (piece :: rest) =
      follow v followLast links (turn place target) (Path.pieces target ++ rest) := by
  rw [seek_name hn, hview]
  exact if_neg (by simpa using hmore)

theorem seek_of_finds {pieces : List Bytes} {spot : Spot}
    (h : Finds v followLast links place pieces spot) :
    seek v followLast links place pieces = .ok spot := by
  induction h with
  | here hplace => rw [seek_nil, if_pos hplace]
  | idle hi _ ih => rw [seek_idle hi, ih]
  | up _ ih => rw [seek_up, ih]
  | free hn hview hplace hrest => exact seek_free hn hview hplace hrest
  | file hn hview => exact seek_file hn hview
  | link hn hview hlast =>
      subst hlast
      exact seek_link hn hview
  | folder hn hview _ ih => rw [seek_folder hn hview, ih]
  | behind hn hview hmore _ ih => rw [seek_behind hn hview hmore, follow_succ, ih]

theorem finds_of_seek {pieces : List Bytes} {spot : Spot}
    (h : seek v followLast links place pieces = .ok spot) :
    Finds v followLast links place pieces spot := by
  induction links, place, pieces using seek_induction with
  | nil links place =>
      rw [seek_nil] at h
      split at h
      · rename_i hplace
        cases h
        exact .here hplace
      · cases h
  | idle links place piece rest hi ih =>
      rw [seek_idle hi] at h
      exact .idle hi (ih h)
  | up links place rest ih =>
      rw [seek_up] at h
      exact .up (ih h)
  | long links place piece rest hi hu hl =>
      rw [seek_long hi hu hl] at h
      cases h
  | name links place piece rest hn ih ihLink =>
      cases hview : v (place ++ [piece]) with
      | none =>
          rw [seek_name hn, hview] at h
          dsimp only at h
          split at h
          · rename_i hfree
            cases h
            exact .free hn hview hfree.1 hfree.2
          · cases h
      | some entry =>
          cases entry with
          | folder inside =>
              rw [seek_folder hn hview] at h
              exact .folder hn hview (ih h)
          | file content executable =>
              rw [seek_name hn, hview] at h
              dsimp only at h
              split at h
              · rename_i hrest
                cases h
                subst hrest
                exact .file hn hview
              · cases h
          | link target =>
              by_cases hlast : rest = [] ∧ followLast = false
              · obtain ⟨rfl, rfl⟩ := hlast
                rw [seek_link hn hview] at h
                cases h
                exact .link hn hview rfl
              · rw [seek_behind hn hview hlast] at h
                cases links with
                | zero => cases h
                | succ fewer => exact .behind hn hview hlast (ihLink fewer target rfl h)

end View

/-! ## Searches on a disk -/

namespace Disk

theorem findFrom_map_bare (top : Folder) (followLast : Bool)
    (onLink onLink' : (place pieces : List Bytes) → Except OsError Spot)
    (hlink : ∀ place pieces, (onLink place pieces).map Spot.bare = onLink' place pieces)
    (place pieces : List Bytes) :
    (findFrom top followLast onLink place pieces).map Spot.bare =
      View.seekFrom top.view followLast onLink' place pieces := by
  induction pieces generalizing place with
  | nil =>
      rw [findFrom, View.seekFrom]
      cases hf : top.folderAt? place with
      | none =>
          rw [if_neg]
          · rfl
          · intro hv
            simp [Folder.view_eq_aFolder_iff, hf] at hv
      | some inside =>
          rw [if_pos (Folder.folderAt?_isSome_iff.mp ⟨inside, hf⟩)]
          rfl
  | cons piece rest ih =>
      rw [findFrom, View.seekFrom]
      by_cases hi : IsIdle piece
      · rw [if_pos hi, if_pos (by simpa [IsIdle] using hi), ih]
      rw [if_neg hi, if_neg (by simpa [IsIdle] using hi)]
      split
      · exact ih _
      split
      · rfl
      have hview : top.view (place ++ [piece]) = (top.at? (place ++ [piece])).map Entry.bare := rfl
      rw [Folder.at?_append_singleton, hview]
      cases top.at? (place ++ [piece]) with
      | none =>
          simp only [Option.map_none, Bool.and_eq_true, Folder.view_eq_aFolder_iff]
          split <;> rfl
      | some entry =>
          cases entry with
          | folder inside => exact ih _
          | file content executable =>
              simp only [Option.map_some, Entry.bare_file]
              split <;> rfl
          | link target =>
              simp only [Option.map_some, Entry.bare_link]
              split
              · rfl
              · exact hlink _ _

theorem findWithin_map_bare (top : Folder) (followLast : Bool) (links : Nat)
    (place pieces : List Bytes) :
    (findWithin top followLast links place pieces).map Spot.bare =
      View.seek top.view followLast links place pieces := by
  induction links generalizing place pieces with
  | zero =>
      rw [findWithin, View.seek]
      exact findFrom_map_bare _ _ _ _ (fun _ _ => rfl) place pieces
  | succ links ih =>
      rw [findWithin, View.seek]
      exact findFrom_map_bare _ _ _ _ ih place pieces

/-- What stands at every place of the disk. -/
def view (d : Disk) : View :=
  d.top.view

/-- Where the search for a path begins. -/
def start (d : Disk) (p : Path) : List Bytes :=
  if p.isAbsolute then [] else d.here

/-- Why a path cannot be searched for at all. -/
def refusal? (p : Path) : Option OsError :=
  if p.bytes.contains 0 then some .zeroByte
  else if p.isEmpty then some .notFound
  else if p.bytes.length > maxPath then some .nameTooLong
  else none

/-- Where a path ends in the view of a disk. -/
def seek (d : Disk) (followLast : Bool) (p : Path) : Except OsError Spot :=
  match refusal? p with
  | some e => .error e
  | none => d.view.seek followLast maxLinks (d.start p) (Path.pieces p.bytes)

theorem start_congr {d other : Disk} (h : d.here = other.here) (p : Path) :
    d.start p = other.start p := by
  rw [start, start, h]

theorem seek_of_allowed {p : Path} (h : refusal? p = none) (d : Disk) (followLast : Bool) :
    d.seek followLast p = d.view.seek followLast maxLinks (d.start p) (Path.pieces p.bytes) := by
  rw [seek, h]

/-- A search that ends was not refused. -/
theorem seek_eq_ok_iff {d : Disk} {followLast : Bool} {p : Path} {spot : Spot} :
    d.seek followLast p = .ok spot ↔ refusal? p = none ∧
      d.view.seek followLast maxLinks (d.start p) (Path.pieces p.bytes) = .ok spot := by
  unfold seek
  cases refusal? p <;> simp

theorem find_map_bare (d : Disk) (followLast : Bool) (p : Path) :
    (d.find followLast p).map Spot.bare = d.seek followLast p := by
  unfold find seek refusal?
  split
  · rfl
  split
  · rfl
  split
  · rfl
  · exact findWithin_map_bare d.top followLast maxLinks _ _

theorem seek_of_find {d : Disk} {followLast : Bool} {p : Path} {spot : Spot}
    (h : d.find followLast p = .ok spot) : d.seek followLast p = .ok spot.bare := by
  rw [← find_map_bare, h]
  rfl

theorem find_of_seek_ok {d : Disk} {followLast : Bool} {p : Path} {spot : Spot}
    (h : d.seek followLast p = .ok spot) :
    ∃ spot', d.find followLast p = .ok spot' ∧ spot'.bare = spot := by
  rw [← find_map_bare] at h
  cases hf : d.find followLast p with
  | ok spot' => exact ⟨spot', rfl, by simpa [hf, Except.map] using h⟩
  | error e' => simp [hf, Except.map] at h

section
variable {d : Disk} {followLast : Bool} {p : Path} {place : List Bytes}

theorem find_of_seek_found {entry : Entry} (h : d.seek followLast p = .ok (.found place entry)) :
    ∃ there, d.find followLast p = .ok (.found place there) ∧ there.bare = entry := by
  obtain ⟨spot, hfind, hbare⟩ := find_of_seek_ok h
  cases spot with
  | free other name slash => cases hbare
  | found other there =>
      cases hbare
      exact ⟨there, hfind, rfl⟩

theorem find_of_seek_free {name : Bytes} {slash : Bool}
    (h : d.seek followLast p = .ok (.free place name slash)) :
    d.find followLast p = .ok (.free place name slash) := by
  obtain ⟨spot, hfind, hbare⟩ := find_of_seek_ok h
  cases spot with
  | free other new slash =>
      cases hbare
      exact hfind
  | found other there => cases hbare

/-- A file has nothing inside it that the view leaves out. -/
theorem find_of_seek_file {content : Bytes} {executable : Bool}
    (h : d.seek followLast p = .ok (.found place (.file content executable))) :
    d.find followLast p = .ok (.found place (.file content executable)) := by
  obtain ⟨there, hfind, hbare⟩ := find_of_seek_found h
  rwa [Entry.bare_eq_file.mp hbare] at hfind

end

/-! ## Entries of a disk -/

section Entries

variable {top : Folder} {disk : Disk} {p : Path} {place start pieces : List Bytes} {entry : Entry}

/-- A search that ends at no link ends there as well if a link at the end is to be followed. -/
theorem findFrom_followLast {onLink onLink' : (place pieces : List Bytes) → Except OsError Spot}
    (hentry : entry.kind ≠ .link)
    (honLink : ∀ start pieces, onLink start pieces = .ok (.found place entry) →
      onLink' start pieces = .ok (.found place entry))
    (h : findFrom top false onLink start pieces = .ok (.found place entry)) :
    findFrom top true onLink' start pieces = .ok (.found place entry) := by
  induction pieces generalizing start with
  | nil => exact h
  | cons piece rest ih =>
      rw [findFrom] at h ⊢
      split
      · rename_i hidle
        rw [if_pos hidle] at h
        exact ih h
      rename_i hidle
      rw [if_neg hidle] at h
      split
      · rename_i hup
        rw [if_pos hup] at h
        exact ih h
      rename_i hup
      rw [if_neg hup] at h
      split
      · rename_i hlong
        rw [if_pos hlong] at h
        cases h
      rename_i hlong
      rw [if_neg hlong] at h
      cases hthere : (top.folderAt? start).bind (·.get? piece) with
      | none =>
          rw [hthere] at h
          exact h
      | some there =>
          rw [hthere] at h
          cases there with
          | folder inside => exact ih h
          | file content executable => exact h
          | link target =>
              dsimp only at h ⊢
              split at h
              · cases h
                exact absurd rfl hentry
              · rw [if_neg (by simp)]
                exact honLink _ _ h

theorem findWithin_followLast {links : Nat} (hentry : entry.kind ≠ .link)
    (h : findWithin top false links start pieces = .ok (.found place entry)) :
    findWithin top true links start pieces = .ok (.found place entry) := by
  induction links generalizing start pieces with
  | zero => exact findFrom_followLast hentry (fun _ _ h => h) h
  | succ links ih => exact findFrom_followLast hentry (fun _ _ h => ih h) h

theorem find_followLast (hentry : entry.kind ≠ .link)
    (h : disk.find false p = .ok (.found place entry)) :
    disk.find true p = .ok (.found place entry) := by
  unfold find at h ⊢
  split at h
  · cases h
  split at h
  · cases h
  split at h
  · cases h
  rename_i hzero hempty hlong
  rw [if_neg hzero, if_neg hempty, if_neg hlong]
  exact findWithin_followLast hentry h

theorem find_of_entry {followLast : Bool} (h : disk.entry followLast p = .ok entry) :
    ∃ place, disk.find followLast p = .ok (.found place entry) := by
  unfold Disk.entry at h
  split at h
  · rename_i place there hfind
    cases h
    exact ⟨place, hfind⟩
  · cases h
  · cases h

theorem entry_followLast (hentry : entry.kind ≠ .link) (h : disk.entry false p = .ok entry) :
    disk.entry true p = .ok entry := by
  obtain ⟨place, hfind⟩ := find_of_entry h
  simp [Disk.entry, find_followLast hentry hfind]

theorem readFolder_iff {inside : Folder} :
    disk.readFolder p = .ok inside ↔ disk.entry true p = .ok (.folder inside) := by
  unfold readFolder
  split <;> rename_i h <;> simp_all

theorem ne_nil_of_entry {followLast : Bool} (h : disk.entry followLast p = .ok entry) :
    p.bytes ≠ [] := by
  intro hempty
  have hnone : disk.entry followLast p = .error .notFound := by
    simp [Disk.entry, Disk.find, Path.isEmpty, hempty]
  rw [hnone] at h
  cases h

end Entries

end Disk

end TodoIndex
