import TodoIndex.Proofs.Files.Resolution

/-! # Searches and changes of the disk

How the search for a path reacts when the disk changes: not at all where it never looks, by
going on where it was stuck, and by ending at the new file where the entry at its end is
replaced.  A path can lead through the very link that stands at its end; only then is the
document lost behind its own directory.
-/

namespace TodoIndex

open Text (Bytes)

/-- A name is neither on the way to the end of a path nor at it. -/
def Spot.Avoids (t : Bytes) : Spot → Prop
  | .found place _ => t ∉ place
  | .free place name _ => t ∉ place ∧ name ≠ t

/-- What a search ends at is what the view shows there. -/
def Spot.Shows (v : View) : Spot → Prop
  | .found place entry => v place = some entry
  | .free place name _ => v place = some .aFolder ∧ v (place ++ [name]) = none

/-- A path ends at a place, whether something is there or not. -/
def Spot.EndsAt (target : List Bytes) : Spot → Prop
  | .found place _ => place = target
  | .free place name slash => place ++ [name] = target ∧ slash = false

theorem Spot.Avoids.not_mem_end {t : Bytes} {spot : Spot} {target : List Bytes}
    (h : spot.Avoids t) (hends : spot.EndsAt target) : t ∉ target := by
  cases spot with
  | found place entry =>
      obtain rfl := hends
      exact h
  | free place name slash =>
      obtain ⟨rfl, -⟩ := hends
      simp [h.1, h.2.symm]

namespace View

variable {v w : View} {followLast : Bool} {links : Nat} {place pieces : List Bytes} {t : Bytes}

/-- Nothing, or a file. -/
def IsDraft (x : Option Entry) : Prop :=
  x = none ∨ ∃ content executable, x = some (.file content executable)

/-- Views that differ at most in files of one name. -/
structure AgreeBut (t : Bytes) (v w : View) : Prop where
  top : v [] = w []
  others : ∀ place name, name ≠ t → v (place ++ [name]) = w (place ++ [name])
  left : ∀ place, IsDraft (v (place ++ [t]))
  right : ∀ place, IsDraft (w (place ++ [t]))

/-- No link of the view has the name among the pieces of its target. -/
def Shuns (t : Bytes) (v : View) : Prop :=
  ∀ place target, v place = some (.link target) → t ∉ Path.pieces target

theorem IsDraft.ne_aFolder {x : Option Entry} (h : IsDraft x) : x ≠ some .aFolder := by
  rcases h with rfl | ⟨content, executable, rfl⟩ <;> simp

theorem AgreeBut.folder_iff (h : AgreeBut t v w) (place : List Bytes) :
    v place = some .aFolder ↔ w place = some .aFolder := by
  rcases List.eq_nil_or_concat place with rfl | ⟨init, name, rfl⟩
  · rw [h.top]
  · rw [List.concat_eq_append]
    by_cases hn : name = t
    · subst hn
      exact iff_of_false (h.left init).ne_aFolder (h.right init).ne_aFolder
    · rw [h.others init name hn]

/-- A search that never meets a name does not see what has that name. -/
theorem seek_congr (h : AgreeBut t v w) (hv : Shuns t v) (ht : t ∉ pieces) :
    seek v followLast links place pieces = seek w followLast links place pieces := by
  induction links, place, pieces using seek_induction with
  | nil links place => simp only [seek_nil, h.folder_iff]
  | idle links place piece rest hi ih =>
      rw [seek_idle hi, seek_idle hi, ih (List.not_mem_of_not_mem_cons ht)]
  | up links place rest ih => rw [seek_up, seek_up, ih (List.not_mem_of_not_mem_cons ht)]
  | long links place piece rest hi hu hl => rw [seek_long hi hu hl, seek_long hi hu hl]
  | name links place piece rest hn ih ihLink =>
      have hp : piece ≠ t := (List.ne_of_not_mem_cons ht).symm
      have hr : t ∉ rest := List.not_mem_of_not_mem_cons ht
      rw [seek_name hn, seek_name hn, ← h.others place piece hp]
      cases hview : v (place ++ [piece]) with
      | none => simp only [h.folder_iff]
      | some entry =>
          cases entry with
          | folder inside => exact ih hr
          | file content executable => rfl
          | link target =>
              dsimp only
              split
              · rfl
              · cases links with
                | zero => rfl
                | succ fewer =>
                    refine ihLink fewer target rfl ?_
                    simp [hr, hv _ _ hview]

/-- What is found stays found when the disk only gets more. -/
theorem seek_mono (hmore : ∀ place entry, v place = some entry → w place = some entry)
    {found : List Bytes} {entry : Entry}
    (h : seek v followLast links place pieces = .ok (.found found entry)) :
    seek w followLast links place pieces = .ok (.found found entry) := by
  have hfinds := finds_of_seek h
  clear h
  refine seek_of_finds ?_
  generalize hspot : Spot.found found entry = spot at hfinds
  induction hfinds with
  | here hplace => exact .here (hmore _ _ hplace)
  | idle hi _ ih => exact .idle hi (ih hspot)
  | up _ ih => exact .up (ih hspot)
  | free => cases hspot
  | file hn hview => exact .file hn (hmore _ _ hview)
  | link hn hview hlast => exact .link hn (hmore _ _ hview) hlast
  | folder hn hview _ ih => exact .folder hn (hmore _ _ hview) (ih hspot)
  | behind hn hview hrest _ ih => exact .behind hn (hmore _ _ hview) hrest (ih hspot)

/-- A search that fails at something that is there still fails when the disk gets more. -/
theorem seek_error_mono (hmore : ∀ place entry, v place = some entry → w place = some entry)
    {e : OsError} (he : e ≠ .notFound) (h : seek v followLast links place pieces = .error e) :
    seek w followLast links place pieces = .error e := by
  induction links, place, pieces using seek_induction with
  | nil links place =>
      rw [seek_nil] at h
      split at h
      · cases h
      · cases h
        exact absurd rfl he
  | idle links place piece rest hi ih =>
      rw [seek_idle hi] at h ⊢
      exact ih h
  | up links place rest ih =>
      rw [seek_up] at h ⊢
      exact ih h
  | long links place piece rest hi hu hl => rwa [seek_long hi hu hl] at h ⊢
  | name links place piece rest hn ih ihLink =>
      cases hview : v (place ++ [piece]) with
      | none =>
          rw [seek_name hn, hview] at h
          dsimp only at h
          split at h
          · cases h
          · cases h
            exact absurd rfl he
      | some entry =>
          have hthere := hmore _ _ hview
          cases entry with
          | folder inside =>
              rw [seek_folder hn hview] at h
              rw [seek_folder hn hthere]
              exact ih h
          | file content executable =>
              rw [seek_name hn, hview] at h
              rw [seek_name hn, hthere]
              exact h
          | link target =>
              by_cases hlast : rest = [] ∧ followLast = false
              · obtain ⟨rfl, rfl⟩ := hlast
                rw [seek_link hn hview] at h
                cases h
              · rw [seek_behind hn hview hlast] at h
                rw [seek_behind hn hthere hlast]
                cases links with
                | zero => exact h
                | succ fewer => exact ihLink fewer target rfl h

/-- With fewer links a search ends where it ended, or runs out of links. -/
theorem seek_fewer_links {spot : Spot} {fewer : Nat} (hle : fewer ≤ links)
    (h : seek v followLast links place pieces = .ok spot) :
    seek v followLast fewer place pieces = .ok spot ∨
      seek v followLast fewer place pieces = .error .tooManyLinks := by
  have hfinds := finds_of_seek h
  clear h
  induction hfinds generalizing fewer with
  | here hplace => exact .inl (seek_of_finds (.here hplace))
  | idle hi _ ih =>
      rw [seek_idle hi]
      exact ih hle
  | up _ ih =>
      rw [seek_up]
      exact ih hle
  | free hn hview hplace hrest => exact .inl (seek_free hn hview hplace hrest)
  | file hn hview => exact .inl (seek_file hn hview)
  | link hn hview hlast => exact .inl (seek_of_finds (.link hn hview hlast))
  | folder hn hview _ ih =>
      rw [seek_folder hn hview]
      exact ih hle
  | behind hn hview hrest _ ih =>
      rw [seek_behind hn hview hrest]
      cases fewer with
      | zero => exact .inr rfl
      | succ fewer => exact ih (by omega)

/-- A search that never meets a name does not end at it. -/
theorem seek_avoids (hv : Shuns t v) (hplace : t ∉ place) (ht : t ∉ pieces) {spot : Spot}
    (h : seek v followLast links place pieces = .ok spot) : spot.Avoids t := by
  have hfinds := finds_of_seek h
  clear h
  have hnext : ∀ {place rest : List Bytes} {piece : Bytes}, t ∉ place → t ∉ piece :: rest →
      t ∉ place ++ [piece] := by
    intro place rest piece hplace ht
    simp [hplace, List.ne_of_not_mem_cons ht]
  induction hfinds with
  | here _ => exact hplace
  | idle _ _ ih => exact ih hplace (List.not_mem_of_not_mem_cons ht)
  | up _ ih =>
      exact ih (fun hm => hplace (List.dropLast_subset _ hm)) (List.not_mem_of_not_mem_cons ht)
  | free => exact ⟨hplace, (List.ne_of_not_mem_cons ht).symm⟩
  | file => exact hnext hplace ht
  | link => exact hnext hplace ht
  | folder _ _ _ ih => exact ih (hnext hplace ht) (List.not_mem_of_not_mem_cons ht)
  | behind _ hview _ _ ih =>
      refine ih ?_ ?_
      · unfold turn
        split
        · exact List.not_mem_nil
        · exact hplace
      · simp [List.not_mem_of_not_mem_cons ht, hv _ _ hview]

/-- The view of a folder: its contents are not shown twice, and all that stands below something
is in a directory. -/
structure IsTree (v : View) : Prop where
  top : v [] = some .aFolder
  flat : ∀ place, (v place).map Entry.bare = v place
  above : ∀ place name, v (place ++ [name]) ≠ none → v place = some .aFolder

theorem IsTree.eq_aFolder (h : IsTree v) {inside : Folder} (hp : v place = some (.folder inside)) :
    v place = some .aFolder := by
  rw [← h.flat, hp]
  rfl

/-- Below what is not a directory there is nothing. -/
theorem IsTree.none_below (h : IsTree v) (hp : v place ≠ some .aFolder) (name : Bytes) :
    v (place ++ [name]) = none :=
  Classical.byContradiction fun hsome => hp (h.above place name hsome)

theorem IsTree.dropLast (h : IsTree v) (hp : v place = some .aFolder) :
    v place.dropLast = some .aFolder := by
  rcases List.eq_nil_or_concat place with rfl | ⟨init, name, rfl⟩
  · exact hp
  · rw [List.concat_eq_append] at hp ⊢
    rw [List.dropLast_concat]
    exact h.above init name (by simp [hp])

theorem IsTree.turn (h : IsTree v) (hp : v place = some .aFolder) (target : Bytes) :
    v (turn place target) = some .aFolder := by
  unfold View.turn
  split
  · exact h.top
  · exact hp

/-- Where a search for a file of a given name in a directory ends. -/
def arrive (v : View) (place : List Bytes) (t : Bytes) : Except OsError Spot :=
  match v (place ++ [t]) with
  | some entry => .ok (.found (place ++ [t]) entry)
  | none => .ok (.free place t false)

/-- A search fails alike in all views that differ from one view at a name alone, or arrives in
the same directory in all of them. -/
def ArrivesAlike (v : View) (t : Bytes) (links : Nat) (place pieces : List Bytes) : Prop :=
  (∃ e, ∀ w followLast, IsTree w → AgreeBut t v w →
      seek w followLast links place pieces = .error e) ∨
    ∃ at_, v at_ = some .aFolder ∧ ∀ w followLast, IsTree w → AgreeBut t v w →
      seek w followLast links place pieces = arrive w at_ t

/-- A search that goes on as one that arrives alike arrives alike. -/
theorem ArrivesAlike.congr {more : Nat} {other rest : List Bytes}
    (h : ArrivesAlike v t links place pieces)
    (hsame : ∀ w followLast, AgreeBut t v w →
      seek w followLast more other rest = seek w followLast links place pieces) :
    ArrivesAlike v t more other rest := by
  refine h.imp ?_ ?_
  · rintro ⟨e, he⟩
    exact ⟨e, fun w followLast hw h => (hsame w followLast h).trans (he w followLast hw h)⟩
  · rintro ⟨at_, hat, he⟩
    exact ⟨at_, hat, fun w followLast hw h =>
      (hsame w followLast h).trans (he w followLast hw h)⟩

/-- The last piece of a search arrives alike. -/
theorem arrivesAlike_last (hn : ¬ IsIdle t) (hu : t ≠ [Path.dot, Path.dot]) (links : Nat)
    (place : List Bytes) :
    ArrivesAlike v t links place [t] := by
  by_cases hl : t.length ≤ Disk.maxName
  · by_cases hfolder : v place = some .aFolder
    · refine .inr ⟨place, hfolder, fun w followLast hw h => ?_⟩
      have hthere : w place = some .aFolder := (h.folder_iff place).mp hfolder
      rw [seek_name ⟨hn, hu, hl⟩, arrive]
      rcases h.right place with hright | ⟨content, executable, hright⟩ <;>
        simp [hright, hthere]
    · refine .inl ⟨.notFound, fun w followLast hw h => ?_⟩
      have hthere : w place ≠ some .aFolder := fun hw => hfolder ((h.folder_iff place).mpr hw)
      rw [seek_name ⟨hn, hu, hl⟩, hw.none_below hthere]
      exact if_neg fun hboth => hthere hboth.1
  · exact .inl ⟨.nameTooLong, fun w followLast hw h => seek_long hn hu hl⟩

/-- The searches for a file of a name in a directory fail alike in all views that differ at the
name alone, or arrive in the same directory. -/
theorem seek_arrive (hv : Shuns t v) (hn : ¬ IsIdle t) (hu : t ≠ [Path.dot, Path.dot])
    (ht : t ∉ pieces) :
    ArrivesAlike v t links place (pieces ++ [t]) := by
  induction links, place, pieces using seek_induction with
  | nil links place => exact arrivesAlike_last hn hu links place
  | idle links place piece rest hi ih =>
      exact (ih (List.not_mem_of_not_mem_cons ht)).congr fun _ _ _ => seek_idle hi
  | up links place rest ih =>
      exact (ih (List.not_mem_of_not_mem_cons ht)).congr fun _ _ _ => seek_up
  | long links place piece rest hi hu hl =>
      exact .inl ⟨.nameTooLong, fun _ _ _ _ => seek_long hi hu hl⟩
  | name links place piece rest hname ih ihLink =>
      have hr : t ∉ rest := List.not_mem_of_not_mem_cons ht
      have hp : piece ≠ t := (List.ne_of_not_mem_cons ht).symm
      have hmore : rest ++ [t] ≠ [] := by simp
      -- All the views show the same here, so one look decides for them all.
      have hlook : ∀ {w}, AgreeBut t v w → w (place ++ [piece]) = v (place ++ [piece]) :=
        fun h => (h.others place piece hp).symm
      cases hview : v (place ++ [piece]) with
      | none =>
          have hall : (rest ++ [t]).all (·.isEmpty) = false := by
            have ht' : t ≠ [] := fun h => hn (.inl h)
            simp [ht']
          refine .inl ⟨.notFound, fun w followLast _ h => ?_⟩
          rw [List.cons_append, seek_name hname, hlook h, hview]
          exact if_neg fun hboth => by simp [hall] at hboth
      | some entry =>
          cases entry with
          | folder inside =>
              exact (ih hr).congr fun _ _ h => seek_folder hname ((hlook h).trans hview)
          | file content executable =>
              refine .inl ⟨.notDirectory, fun w followLast _ h => ?_⟩
              rw [List.cons_append, seek_name hname, hlook h, hview]
              exact if_neg hmore
          | link target =>
              have hbehind : ∀ w followLast, AgreeBut t v w →
                  seek w followLast links place (piece :: (rest ++ [t])) =
                    follow w followLast links (turn place target)
                      (Path.pieces target ++ rest ++ [t]) := by
                intro w followLast h
                rw [seek_behind hname ((hlook h).trans hview) (by simp), List.append_assoc]
              cases links with
              | zero => exact .inl ⟨.tooManyLinks, fun w followLast _ h => hbehind w followLast h⟩
              | succ fewer =>
                  exact (ihLink fewer target rfl (by simp [hr, hv _ _ hview])).congr hbehind

/-! ## Replacing the entry at the end of a path -/

/-- A search ends where something is if it finds it, and where nothing is if it does not. -/
theorem ends_of_seek {spot : Spot}
    (h : seek v followLast links place pieces = .ok spot) : spot.Shows v := by
  have hfinds := finds_of_seek h
  clear h
  induction hfinds with
  | here hplace => exact hplace
  | idle _ _ ih => exact ih
  | up _ ih => exact ih
  | free _ hview hplace _ => exact ⟨hplace, hview⟩
  | file _ hview => exact hview
  | link _ hview _ => exact hview
  | folder _ _ _ ih => exact ih
  | behind _ _ _ _ ih => exact ih

/-- A search that ends at a link and does not follow it goes on from there when it does. -/
theorem seek_true_of_link {init : List Bytes} {name target : Bytes}
    (h : seek v false links place pieces = .ok (.found (init ++ [name]) (.link target))) :
    seek v true links place pieces = .error .tooManyLinks ∨
      ∃ fewer < links, seek v true links place pieces =
        seek v true fewer (turn init target) (Path.pieces target) := by
  have hfinds := finds_of_seek h
  clear h
  generalize hspot : Spot.found (init ++ [name]) (.link target) = spot at hfinds
  induction hfinds with
  | here => simp [Entry.aFolder] at hspot
  | idle hi _ ih =>
      rw [seek_idle hi]
      exact ih hspot
  | up _ ih =>
      rw [seek_up]
      exact ih hspot
  | free => cases hspot
  | file => simp at hspot
  | @link links place _ other hn hview _ =>
      simp only [Spot.found.injEq, Entry.link.injEq] at hspot
      obtain ⟨hat, rfl⟩ := hspot
      obtain rfl : init = place := (List.append_inj' hat rfl).1
      rw [seek_behind hn hview (by simp), List.append_nil]
      cases links with
      | zero => exact .inl rfl
      | succ fewer => exact .inr ⟨fewer, by omega, rfl⟩
  | folder hn hview _ ih =>
      rw [seek_folder hn hview]
      exact ih hspot
  | behind hn hview _ _ ih =>
      rw [seek_behind hn hview (by simp), follow_succ]
      rcases ih hspot with hmany | ⟨less, hlt, hgo⟩
      · exact .inl hmany
      · exact .inr ⟨less, by omega, hgo⟩

/-- What is before the end of a path leads to a directory if something is found at the end, and
the search begins in a directory or can find the end in a directory alone. -/
theorem seek_front (hv : IsTree v) {rest init : List Bytes} {there : Entry}
    (hplace : v place = some .aFolder ∨ ∀ links place,
      seek v followLast links place rest = .ok (.found init there) → v place = some .aFolder)
    (hrest : rest ≠ [])
    (h : seek v followLast links place (pieces ++ rest) = .ok (.found init there)) :
    ∃ found, seek v true links place pieces = .ok (.found found .aFolder) := by
  induction links, place, pieces using seek_induction with
  | nil links place =>
      have hfolder : v place = some .aFolder := hplace.elim id fun hend => hend links place h
      exact ⟨place, by rw [seek_nil, if_pos hfolder]⟩
  | idle links place piece more hi ih =>
      rw [List.cons_append, seek_idle hi] at h
      rw [seek_idle hi]
      exact ih hplace h
  | up links place more ih =>
      rw [List.cons_append, seek_up] at h
      rw [seek_up]
      exact ih (hplace.imp_left hv.dropLast) h
  | long links place piece more hi hu hl =>
      rw [List.cons_append, seek_long hi hu hl] at h
      cases h
  | name links place piece more hn ih ihLink =>
      have hmore : more ++ rest ≠ [] := by simp [hrest]
      rw [List.cons_append, seek_name hn] at h
      rw [seek_name hn]
      cases hview : v (place ++ [piece]) with
      | none =>
          simp only [hview] at h
          split at h <;> cases h
      | some entry =>
          rw [hview] at h
          cases entry with
          | folder inside => exact ih (.inl (hv.eq_aFolder hview)) h
          | file content executable =>
              dsimp only at h
              rw [if_neg hmore] at h
              cases h
          | link other =>
              dsimp only at h ⊢
              rw [if_neg (by simp [hrest])] at h
              cases links with
              | zero => cases h
              | succ fewer =>
                  rw [if_neg (by simp)]
                  refine ihLink fewer other rfl (hplace.imp_left fun hat => hv.turn hat other) ?_
                  simpa [List.append_assoc] using h

/-- A search that ends in a directory or in too many links. -/
def LeadsAway (outcome : Except OsError Spot) : Prop :=
  outcome = .error .tooManyLinks ∨ ∃ place, outcome = .ok (.found place .aFolder)

/-- A path that leads through the link at its own end leads to a directory. -/
theorem leadsAway_of_link (hv : IsTree v) {name target : Bytes} {rest : List Bytes}
    (hplace : v place = some .aFolder) (hrest : rest ≠ [])
    (h : seek v false links (turn place target) (Path.pieces target ++ rest) =
      .ok (.found (place ++ [name]) (.link target))) :
    LeadsAway (seek v true links (turn place target) (Path.pieces target ++ rest)) := by
  obtain ⟨found, hfront⟩ := seek_front hv (.inl (hv.turn hplace target)) hrest h
  rcases seek_true_of_link h with hmany | ⟨fewer, hlt, hgo⟩
  · exact .inl hmany
  · rw [hgo]
    rcases seek_fewer_links (Nat.le_of_lt hlt) hfront with hsame | hmany
    · exact .inr ⟨found, hsame⟩
    · exact .inl hmany

/-- When the entry at the end of a path is replaced by a file, the path leads to that file, unless
it led through the entry before, which was a link to a directory; then it is stuck at the file. -/
theorem seek_replaced (hv : IsTree v) {target : List Bytes} {content : Bytes} {executable : Bool}
    (hsame : ∀ other, other ≠ target → w other = v other)
    (hnew : w target = some (.file content executable)) (hold : v target ≠ some .aFolder)
    {spot : Spot} (hspot : spot.EndsAt target)
    (h : seek v false links place pieces = .ok spot) :
    seek w true links place pieces = .ok (.found target (.file content executable)) ∨
      seek w true links place pieces = .error .notDirectory ∧
        LeadsAway (seek v true links place pieces) ∧
          ∃ other, spot = .found target (.link other) := by
  have hfinds := finds_of_seek h
  clear h
  induction hfinds with
  | here hplace =>
      obtain rfl := hspot
      exact absurd hplace hold
  | idle hi _ ih =>
      rw [seek_idle hi, seek_idle hi]
      exact ih hspot
  | up _ ih =>
      rw [seek_up, seek_up]
      exact ih hspot
  | free hn _ _ _ =>
      obtain ⟨rfl, hslash⟩ := hspot
      obtain rfl := List.isEmpty_iff.mp (by simpa using hslash)
      exact .inl (seek_file hn hnew)
  | file hn _ =>
      obtain rfl := hspot
      exact .inl (seek_file hn hnew)
  | link hn _ _ =>
      obtain rfl := hspot
      exact .inl (seek_file hn hnew)
  | @folder _ place _ piece _ _ hn hview _ ih =>
      have hat : place ++ [piece] ≠ target := by
        rintro rfl
        exact hold (hv.eq_aFolder hview)
      rw [seek_folder hn ((hsame _ hat).trans hview), seek_folder hn hview]
      exact ih hspot
  | @behind _ place rest piece other spot hn hview hmore hgo ih =>
      have hrest : rest ≠ [] := fun hnil => hmore ⟨hnil, rfl⟩
      rw [seek_behind hn hview (by simp), follow_succ]
      by_cases hat : place ++ [piece] = target
      · -- The path leads through its own end, which was a link.
        subst hat
        have hseek := seek_of_finds hgo
        have hends := ends_of_seek hseek
        have hplace : v place = some .aFolder := hv.above place piece (by rw [hview]; simp)
        refine .inr ⟨?_, ?_⟩
        · rw [seek_name hn, hnew]
          exact if_neg hrest
        cases spot with
        | free init name slash =>
            have hgone : v (place ++ [piece]) = none := hspot.1 ▸ hends.2
            rw [hview] at hgone
            cases hgone
        | found found entry =>
            obtain rfl : found = place ++ [piece] := hspot
            have hlink : some (Entry.link other) = some entry := hview.symm.trans hends
            cases hlink
            exact ⟨leadsAway_of_link hv hplace hrest hseek, other, rfl⟩
      · rw [seek_behind hn ((hsame _ hat).trans hview) (by simp), follow_succ]
        exact ih hspot

end View

end TodoIndex
