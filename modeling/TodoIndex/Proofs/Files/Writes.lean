import TodoIndex.Proofs.Files.Changes

/-! # Operations on a disk in its view

Each operation that writes sets the view at one place, or at two for a move, and leaves the
working directory alone; one that fails leaves the disk as it was.  What a path reads is a
matter of where its search ends.
-/

namespace TodoIndex

open Text (Bytes)

namespace View

/-- The view with something else, or nothing, at one place. -/
def set (v : View) (place : List Bytes) (x : Option Entry) : View :=
  fun other => if other = place then x else v other

@[simp] theorem set_same (v : View) (place : List Bytes) (x : Option Entry) :
    v.set place x place = x := if_pos rfl

theorem set_other {v : View} {place other : List Bytes} {x : Option Entry} (h : other ≠ place) :
    v.set place x other = v other := if_neg h

/-- What is set where nothing was leaves everything else. -/
theorem set_mono {v : View} {place other : List Bytes} {x : Option Entry} {entry : Entry}
    (hfree : v place = none) (h : v other = some entry) : v.set place x other = some entry := by
  rwa [set_other]
  rintro rfl
  rw [hfree] at h
  cases h

theorem set_set (v : View) (place : List Bytes) (x y : Option Entry) :
    (v.set place x).set place y = v.set place y := by
  funext other
  unfold set
  split <;> rfl

theorem set_eq_self {v : View} {place : List Bytes} {x : Option Entry} (h : v place = x) :
    v.set place x = v := by
  funext other
  by_cases ho : other = place
  · rw [ho, set_same, h]
  · exact set_other ho

end View

namespace Disk

variable {d : Disk} {p : Path} {place : List Bytes} {name : Bytes}

theorem isTree_view (d : Disk) : View.IsTree d.view where
  top := Folder.view_nil d.top
  flat := by
    intro place
    unfold view Folder.view
    cases d.top.at? place with
    | none => rfl
    | some entry => cases entry <;> rfl
  above := fun _ _ => Folder.view_below_ne

/-! ## Single places -/

theorem view_put {entry : Entry} (hflat : entry.bare = entry)
    (hfolder : d.view place = some .aFolder) (hfree : d.view (place ++ [name]) ≠ some .aFolder) :
    (d.put place name entry).view = d.view.set (place ++ [name]) (some entry) := by
  have hchange : ∀ (g : Folder) m, (g.insert name entry).get? m =
      if m = name then some entry else g.get? m :=
    fun g m => Folder.get?_insert g name m entry
  funext other
  refine (Folder.view_modifyAt hchange (by simp [hflat]) hfree other).trans ?_
  have hthere : d.top.view place = some .aFolder := hfolder
  simp only [hthere, and_true]
  rfl

theorem view_eraseAt (hplace : place ≠ []) (hfree : d.view place ≠ some .aFolder) :
    (d.eraseAt place).view = d.view.set place none := by
  rcases List.eq_nil_or_concat place with rfl | ⟨init, last, rfl⟩
  · exact absurd rfl hplace
  rw [List.concat_eq_append] at hfree ⊢
  have hchange : ∀ (g : Folder) m, (g.erase last).get? m = if m = last then none else g.get? m :=
    fun g m => Folder.get?_erase g last m
  have herase : d.eraseAt (init ++ [last]) = d.change init (·.erase last) := by
    simp [eraseAt]
  funext other
  rw [herase]
  refine (Folder.view_modifyAt hchange rfl hfree other).trans ?_
  by_cases hother : other = init ++ [last]
  · -- The directory of what is erased may be missing; then nothing was there before.
    subst hother
    rw [View.set_same]
    split
    · rfl
    · rename_i hinit
      exact Classical.byContradiction fun hsome => hinit ⟨rfl, Folder.view_below_ne hsome⟩
  · rw [if_neg fun hboth => hother hboth.1, View.set_other hother]
    rfl

@[simp] theorem here_put (d : Disk) (place : List Bytes) (name : Bytes) (entry : Entry) :
    (d.put place name entry).here = d.here := rfl

@[simp] theorem here_eraseAt (d : Disk) (place : List Bytes) :
    (d.eraseAt place).here = d.here := by
  unfold eraseAt
  split <;> rfl

/-! ## Reading -/

/-- What is read where a path ends. -/
def readAt : Except OsError Spot → Except OsError Bytes
  | .ok (.found _ (.file content _)) => .ok content
  | .ok (.found _ _) => .error .isDirectory
  | .ok (.free ..) => .error .notFound
  | .error e => .error e

theorem contents_eq (d : Disk) (p : Path) : d.contents p = readAt (d.seek true p) := by
  rw [← find_map_bare, contents, entry]
  cases d.find true p with
  | error e => rfl
  | ok spot =>
      cases spot with
      | free place name slash => rfl
      | found place entry => cases entry <;> rfl

theorem isFolder_iff : d.isFolder p = true ↔
    ∃ place, d.seek true p = .ok (.found place .aFolder) := by
  unfold isFolder entry
  rw [← find_map_bare]
  cases d.find true p with
  | error e => simp [Except.map]
  | ok spot =>
      cases spot with
      | free place name slash => simp [Except.map, Spot.bare]
      | found place entry => cases entry <;> simp [Except.map, Spot.bare, Entry.bare, Entry.aFolder]

theorem shows_of_seek {followLast : Bool} {spot : Spot} (h : d.seek followLast p = .ok spot) :
    spot.Shows d.view := by
  exact View.ends_of_seek (seek_eq_ok_iff.mp h).2

/-! ## Creating a directory -/

theorem createFolder_cases (d : Disk) (p : Path) :
    (∃ e, d.createFolder p = (.error e, d)) ∨
      ∃ place name slash made, d.seek false p = .ok (.free place name slash) ∧
        d.createFolder p = (.ok (), made) ∧ made.here = d.here ∧
        made.view = d.view.set (place ++ [name]) (some .aFolder) := by
  unfold createFolder
  cases hfind : d.find false p with
  | error e => exact .inl ⟨e, rfl⟩
  | ok spot =>
      cases spot with
      | found place entry => exact .inl ⟨.exists, rfl⟩
      | free place name slash =>
          have hseek := seek_of_find hfind
          have hshows := shows_of_seek hseek
          exact .inr ⟨place, name, slash, _, hseek, rfl, rfl,
            view_put rfl hshows.1 (by simp [hshows.2])⟩

/-! ## Files -/

theorem found_ne_nil {followLast : Bool} {content : Bytes} {executable : Bool}
    (h : d.seek followLast p = .ok (.found place (.file content executable))) : place ≠ [] := by
  rintro rfl
  have htop : d.view [] = some (.file content executable) := shows_of_seek h
  rw [(isTree_view d).top] at htop
  cases htop

theorem writeFile_cases (d : Disk) (p : Path) (content : Bytes) :
    (∃ e, d.writeFile p content = (.error e, d)) ∨
      ∃ spot target executable written, d.seek true p = .ok spot ∧ spot.EndsAt target ∧
        View.IsDraft (d.view target) ∧ d.writeFile p content = (.ok (), written) ∧
        written.here = d.here ∧
        written.view = d.view.set target (some (.file content executable)) := by
  unfold writeFile
  cases hfind : d.find true p with
  | error e => exact .inl ⟨e, rfl⟩
  | ok spot =>
      have hseek := seek_of_find hfind
      have hshows := shows_of_seek hseek
      cases spot with
      | found place entry =>
          cases entry with
          | link target => exact .inl ⟨.isDirectory, rfl⟩
          | folder inside => exact .inl ⟨.isDirectory, rfl⟩
          | file old executable =>
              rcases List.eq_nil_or_concat place with rfl | ⟨init, name, rfl⟩
              · exact absurd rfl (found_ne_nil hseek)
              rw [List.concat_eq_append] at hseek hshows ⊢
              have hthere : d.view (init ++ [name]) = some (.file old executable) := hshows
              refine .inr ⟨_, init ++ [name], executable,
                d.put init name (.file content executable), hseek, rfl,
                .inr ⟨old, executable, hthere⟩, ?_, rfl, view_put rfl ?_ ?_⟩
              · simp
              · exact (isTree_view d).above init name (by simp [hthere])
              · simp [hthere]
      | free place name slash =>
          cases slash with
          | true => exact .inl ⟨.isDirectory, rfl⟩
          | false =>
              exact .inr ⟨_, place ++ [name], false, _, hseek, ⟨rfl, rfl⟩, .inl hshows.2, rfl, rfl,
                view_put rfl hshows.1 (by simp [hshows.2])⟩

theorem remove_of_file {content : Bytes} {executable : Bool}
    (h : d.seek false p = .ok (.found place (.file content executable))) :
    ∃ removed, d.remove p = (.ok (), removed) ∧ removed.here = d.here ∧
      removed.view = d.view.set place none := by
  have hthere : d.view place = some (.file content executable) := shows_of_seek h
  refine ⟨d.eraseAt place, ?_, here_eraseAt d place,
    view_eraseAt (found_ne_nil h) (by simp [hthere])⟩
  rw [remove, find_of_seek_file h]

theorem remove_of_not_found (h : ∀ place entry, d.seek false p ≠ .ok (.found place entry)) :
    (d.remove p).2 = d := by
  unfold remove
  cases hfind : d.find false p with
  | error e => rfl
  | ok spot =>
      cases spot with
      | free place name slash => rfl
      | found place entry => exact absurd (seek_of_find hfind) (h place entry.bare)

/-- The view after a file has been moved to a name in a directory. -/
theorem view_moved {old new : List Bytes} {content : Bytes} {executable : Bool}
    (hold : d.view old = some (.file content executable)) (hne : old ≠ new ++ [name])
    (hfolder : d.view new = some .aFolder) (hfree : d.view (new ++ [name]) ≠ some .aFolder) :
    ((d.eraseAt old).put new name (.file content executable)).view =
      (d.view.set old none).set (new ++ [name]) (some (.file content executable)) := by
  have hview : (d.eraseAt old).view = d.view.set old none := by
    refine view_eraseAt ?_ (by simp [hold])
    rintro rfl
    rw [(isTree_view d).top] at hold
    cases hold
  have hroot : new ≠ old := by
    rintro rfl
    rw [hold] at hfolder
    cases hfolder
  rw [view_put rfl, hview]
  · rwa [hview, View.set_other hroot]
  · rwa [hview, View.set_other (Ne.symm hne)]

/-- A file has been moved from a place to the end of a path. -/
structure MovedTo (d moved : Disk) (target : Path) (old new : List Bytes) (entry : Entry) :
    Prop where
  ends : ∃ spot, d.seek false target = .ok spot ∧ spot.EndsAt new
  apart : old ≠ new
  noFolder : d.view new ≠ some .aFolder
  here : moved.here = d.here
  view : moved.view = (d.view.set old none).set new (some entry)

theorem moveFound_ok_or_error (d : Disk) (source target : Path) :
    (d.moveFound source target).1 = .ok () ∨ ∃ e, d.moveFound source target = (.error e, d) := by
  unfold moveFound
  repeat' split
  all_goals first
    | exact .inl rfl
    | exact .inr ⟨_, rfl⟩

/-- A move that fails leaves the disk as it was. -/
theorem move_ok_or_error (d : Disk) (source target : Path) :
    (d.move source target).1 = .ok () ∨ ∃ e, d.move source target = (.error e, d) := by
  unfold move
  split
  · exact .inr ⟨_, rfl⟩
  split
  · exact moveFound_ok_or_error d source target
  · exact .inr ⟨_, rfl⟩

/-- What is found where a file may be put is no directory. -/
theorem ne_aFolder_of_mayReplace {content : Bytes} {executable : Bool} {there : Entry}
    (h : mayReplace (.file content executable) there = .ok ()) : there.bare ≠ .aFolder := by
  cases there with
  | folder inside => cases h
  | file old mode => simp [Entry.bare, Entry.aFolder]
  | link target => simp [Entry.bare, Entry.aFolder]

theorem moveFound_of_move {source target : Path} {moved : Disk}
    (h : d.move source target = (.ok (), moved)) : d.moveFound source target = (.ok (), moved) := by
  unfold move at h
  split at h
  · cases h
  split at h
  · exact h
  · cases h

section
variable {source target : Path} {old new init : List Bytes} {content : Bytes} {executable : Bool}
  {moved : Disk}

/-- A file that is moved to where nothing is becomes a file there. -/
theorem moveFound_to_free {slash : Bool}
    (hsource : d.find false source = .ok (.found old (.file content executable)))
    (htarget : d.find false target = .ok (.free init name slash))
    (h : d.moveFound source target = (.ok (), moved)) :
    slash = false ∧ moved = (d.eraseAt old).put init name (.file content executable) := by
  rw [moveFound, hsource, htarget] at h
  dsimp only at h
  split at h
  · cases h
  split at h
  · cases h
  rename_i hslash
  cases h
  exact ⟨by simpa [Entry.kind] using hslash, rfl⟩

/-- A file that is moved to where something is stays there if it is what is there itself, and
otherwise takes the place of what is no directory. -/
theorem moveFound_to_found {there : Entry}
    (hsource : d.find false source = .ok (.found old (.file content executable)))
    (htarget : d.find false target = .ok (.found new there))
    (h : d.moveFound source target = (.ok (), moved)) :
    (old = new ∧ moved = d) ∨ ∃ init name, new = init ++ [name] ∧ old ≠ init ++ [name] ∧
      there.bare ≠ .aFolder ∧ moved = (d.eraseAt old).put init name (.file content executable) := by
  rw [moveFound, hsource, htarget] at h
  dsimp only at h
  split at h
  · rename_i hsame
    cases h
    exact .inl ⟨hsame, rfl⟩
  rename_i hne
  split at h
  · cases h
  split at h
  · cases h
  split at h
  · cases h
  · rename_i name hreplace hlast
    cases h
    obtain ⟨init, rfl⟩ := List.getLast?_eq_some_iff.mp hlast
    exact .inr ⟨init, name, rfl, hne, ne_aFolder_of_mayReplace hreplace,
      by rw [List.dropLast_concat]⟩
  · cases h

/-- A file that is moved stays where it is if that is where the path ends; otherwise it is taken
from its place and put at the end of the path. -/
theorem move_ok_cases (h : d.seek false source = .ok (.found old (.file content executable)))
    (hmove : d.move source target = (.ok (), moved)) :
    (moved = d ∧ d.seek false target = .ok (.found old (.file content executable))) ∨
      ∃ init name, moved = (d.eraseAt old).put init name (.file content executable) ∧
        MovedTo d moved target old (init ++ [name]) (.file content executable) := by
  have hold : d.view old = some (.file content executable) := shows_of_seek h
  have hsource := find_of_seek_file h
  have hfound := moveFound_of_move hmove
  cases htarget : d.find false target with
  | error e =>
      rw [moveFound, hsource, htarget] at hfound
      cases hfound
  | ok spot =>
      have hseek := seek_of_find htarget
      have hshows := shows_of_seek hseek
      cases spot with
      | free init name slash =>
          have hnone : d.view (init ++ [name]) = none := hshows.2
          obtain ⟨rfl, rfl⟩ := moveFound_to_free hsource htarget hfound
          have hne : old ≠ init ++ [name] := by
            rintro rfl
            rw [hnone] at hold
            cases hold
          have hfree : d.view (init ++ [name]) ≠ some .aFolder := by simp [hnone]
          exact .inr ⟨init, name, rfl, ⟨_, hseek, rfl, rfl⟩, hne, hfree, by simp,
            view_moved hold hne hshows.1 hfree⟩
      | found new there =>
          have hthere : d.view new = some there.bare := hshows
          rcases moveFound_to_found hsource htarget hfound with
            ⟨rfl, rfl⟩ | ⟨init, name, rfl, hne, hflat, rfl⟩
          · rw [hold] at hthere
            exact .inl ⟨rfl, by rw [hseek, Spot.bare, ← Option.some.inj hthere]⟩
          · have hfree : d.view (init ++ [name]) ≠ some .aFolder := by simpa [hthere] using hflat
            have hfolder := (isTree_view d).above init name (by simp [hthere])
            exact .inr ⟨init, name, rfl, ⟨_, hseek, rfl⟩, hne, hfree, by simp,
              view_moved hold hne hfolder hfree⟩

end

theorem move_cases {source target : Path} {old : List Bytes} {content : Bytes} {executable : Bool}
    (h : d.seek false source = .ok (.found old (.file content executable))) :
    (∃ e, d.move source target = (.error e, d)) ∨
      (d.move source target = (.ok (), d) ∧
        d.seek false target = .ok (.found old (.file content executable))) ∨
      ∃ new moved, d.move source target = (.ok (), moved) ∧
        MovedTo d moved target old new (.file content executable) := by
  rcases move_ok_or_error d source target with hok | herror
  · have hmove : d.move source target = (.ok (), (d.move source target).2) := Prod.ext hok rfl
    rcases move_ok_cases h hmove with ⟨hstays, hseek⟩ | ⟨init, name, -, hmoved⟩
    · exact .inr (.inl ⟨hmove.trans (by rw [hstays]), hseek⟩)
    · exact .inr (.inr ⟨_, _, hmove, hmoved⟩)
  · exact .inl herror

end Disk

end TodoIndex
