import TodoIndex.Proofs.Files.Changes
import TodoIndex.Proofs.Files.Paths

/-! # Going on behind a path

A search for a longer path first does what the search for its beginning does, and goes on from
where that one ended: from a directory, or with the missing name it was stuck at.
-/

namespace TodoIndex

open Text (Bytes)

namespace View

variable {v w : View} {followLast : Bool} {links : Nat} {place pieces more : List Bytes}

theorem seek_append_idle (h : ∀ piece ∈ pieces, IsIdle piece) :
    seek v followLast links place (pieces ++ more) = seek v followLast links place more := by
  induction pieces with
  | nil => rfl
  | cons piece rest ih =>
      obtain ⟨hpiece, hrest⟩ := List.forall_mem_cons.mp h
      rw [List.cons_append, seek_idle hpiece, ih hrest]

/-- A piece that says nothing makes no difference before a name. -/
theorem seek_idle_before {piece name : Bytes} (hpiece : IsIdle piece) (hname : name ≠ []) :
    seek v followLast links place (pieces ++ [piece, name]) =
      seek v followLast links place (pieces ++ [name]) := by
  induction links, place, pieces using seek_induction with
  | nil links place => exact seek_idle hpiece
  | idle links place other rest hi ih => simpa only [List.cons_append, seek_idle hi] using ih
  | up links place rest ih => simpa only [List.cons_append, seek_up] using ih
  | long links place other rest hi hu hl => simp only [List.cons_append, seek_long hi hu hl]
  | name links place other rest hn ih ihLink =>
      have hmore : rest ++ [piece, name] ≠ [] := by simp
      have hless : rest ++ [name] ≠ [] := by simp
      have hall : (rest ++ [piece, name]).all (·.isEmpty) = false := by simp [hname]
      have hsome : (rest ++ [name]).all (·.isEmpty) = false := by simp [hname]
      simp only [List.cons_append, seek_name hn]
      cases hview : v (place ++ [other]) with
      | none => simp [hall, hsome]
      | some entry =>
          cases entry with
          | folder inside => exact ih
          | file content executable => simp [hmore, hless]
          | link target =>
              simp only [hmore, hless, decide_false, Bool.false_and, Bool.false_eq_true, if_false]
              cases links with
              | zero => rfl
              | succ fewer =>
                  rw [follow_succ, follow_succ, ← List.append_assoc, ← List.append_assoc]
                  exact ihLink fewer target rfl

/-- Where the beginning is a directory, the search goes on in it; also in a view that shows the
same directories and links. -/
theorem seek_behind_folder {found : List Bytes}
    (h : seek v true links place pieces = .ok (.found found .aFolder))
    (hshown : ∀ place entry, v place = some entry →
      (∀ content executable, entry ≠ .file content executable) → w place = some entry) :
    ∃ fewer, ∀ followLast, ∀ more ≠ [],
      seek w followLast links place (pieces ++ more) = seek w followLast fewer found more := by
  have hfinds := finds_of_seek h
  clear h
  generalize hspot : Spot.found found .aFolder = spot at hfinds
  induction hfinds with
  | @here links place _ =>
      cases hspot
      exact ⟨links, fun _ _ _ => rfl⟩
  | idle hi _ ih =>
      obtain ⟨fewer, hgo⟩ := ih hspot
      refine ⟨fewer, fun followLast more hmore => ?_⟩
      rw [List.cons_append, seek_idle hi, hgo followLast more hmore]
  | up _ ih =>
      obtain ⟨fewer, hgo⟩ := ih hspot
      refine ⟨fewer, fun followLast more hmore => ?_⟩
      rw [List.cons_append, seek_up, hgo followLast more hmore]
  | free => cases hspot
  | file => simp [Entry.aFolder] at hspot
  | link _ _ hlast => cases hlast
  | folder hn hview _ ih =>
      obtain ⟨fewer, hgo⟩ := ih hspot
      refine ⟨fewer, fun followLast more hmore => ?_⟩
      rw [List.cons_append, seek_folder hn (hshown _ _ hview (by simp)), hgo followLast more hmore]
  | behind hn hview _ _ ih =>
      obtain ⟨fewer, hgo⟩ := ih hspot
      refine ⟨fewer, fun followLast more hmore => ?_⟩
      rw [List.cons_append, seek_behind hn (hshown _ _ hview (by simp)) (by simp [hmore]),
        follow_succ, ← List.append_assoc]
      exact hgo followLast more hmore

/-- Where the beginning is missing in its directory, the search comes to the missing name; also
in a view that shows more. -/
theorem seek_behind_free {found : List Bytes} {name : Bytes} {slash : Bool}
    (h : seek v false links place pieces = .ok (.free found name slash)) :
    IsName name ∧ ∃ fewer idles, (∀ piece ∈ idles, IsIdle piece) ∧
      ∀ w : View, (∀ place entry, v place = some entry → w place = some entry) →
        ∀ followLast more, seek w followLast links place (pieces ++ more) =
          seek w followLast fewer found (name :: (idles ++ more)) := by
  have hfinds := finds_of_seek h
  clear h
  generalize hspot : Spot.free found name slash = spot at hfinds
  induction hfinds with
  | here => cases hspot
  | idle hi _ ih =>
      simp only [List.cons_append, seek_idle hi]
      exact ih hspot
  | up _ ih =>
      simp only [List.cons_append, seek_up]
      exact ih hspot
  | @free links place rest piece hn _ _ hrest =>
      cases hspot
      refine ⟨hn, links, rest, fun other hother => .inl ?_, fun _ _ _ _ => rfl⟩
      simpa using List.all_eq_true.mp hrest other hother
  | file => cases hspot
  | link => cases hspot
  | folder hn hview _ ih =>
      obtain ⟨hname, fewer, idles, hidles, hgo⟩ := ih hspot
      refine ⟨hname, fewer, idles, hidles, fun w hw followLast more => ?_⟩
      rw [List.cons_append, seek_folder hn (hw _ _ hview)]
      exact hgo w hw followLast more
  | behind hn hview hrest _ ih =>
      obtain ⟨hname, fewer, idles, hidles, hgo⟩ := ih hspot
      refine ⟨hname, fewer, idles, hidles, fun w hw followLast more => ?_⟩
      have hopen : ¬ (_ ++ more = [] ∧ followLast = false) := fun hboth =>
        hrest ⟨(List.append_eq_nil_iff.mp hboth.1).1, rfl⟩
      rw [List.cons_append, seek_behind hn (hw _ _ hview) hopen, follow_succ, ← List.append_assoc]
      exact hgo w hw followLast more

/-- A path that ends at something else than a directory ends in a name. -/
theorem name_of_ends {spot : Spot} {target : List Bytes} (hspot : spot.EndsAt target)
    (hfree : v target ≠ some .aFolder) (h : seek v false links place pieces = .ok spot) :
    ∃ front name, pieces = front ++ [name] ∧ IsName name := by
  have hadd : ∀ {piece : Bytes} {rest : List Bytes},
      (∃ front name, rest = front ++ [name] ∧ IsName name) →
        ∃ front name, piece :: rest = front ++ [name] ∧ IsName name := by
    rintro piece _ ⟨front, name, rfl, hname⟩
    exact ⟨piece :: front, name, rfl, hname⟩
  have hfinds := finds_of_seek h
  clear h
  induction hfinds with
  | here hplace =>
      obtain rfl := hspot
      exact absurd hplace hfree
  | idle _ _ ih => exact hadd (ih hspot)
  | up _ ih => exact hadd (ih hspot)
  | @free _ _ _ piece hn _ _ _ =>
      obtain rfl := List.isEmpty_iff.mp (by simpa using hspot.2)
      exact ⟨[], piece, rfl, hn⟩
  | @file _ _ piece _ _ hn _ => exact ⟨[], piece, rfl, hn⟩
  | @link _ _ piece _ hn _ _ => exact ⟨[], piece, rfl, hn⟩
  | folder _ _ _ ih => exact hadd (ih hspot)
  | @behind _ _ rest _ _ _ _ _ hmore _ ih =>
      -- What is behind the link is not empty, and it has the end of both paths.
      obtain ⟨front, name, heq, hname⟩ := ih hspot
      rcases List.eq_nil_or_concat rest with rfl | ⟨init, last, rfl⟩
      · exact absurd ⟨rfl, rfl⟩ hmore
      · rw [List.concat_eq_append, ← List.append_assoc] at heq
        obtain ⟨-, hsame⟩ := List.append_inj' heq rfl
        cases hsame
        exact hadd ⟨init, name, List.concat_eq_append, hname⟩

/-- A piece that neither goes up nor is too long. -/
def IsPlainPiece (piece : Bytes) : Prop :=
  piece ≠ [Path.dot, Path.dot] ∧ piece.length ≤ Disk.maxName

theorem IsIdle.isPlainPiece {piece : Bytes} (h : IsIdle piece) : IsPlainPiece piece := by
  rcases h with rfl | rfl <;> simp [IsPlainPiece, Disk.maxName]

/-- Nothing is found in an empty directory. -/
theorem seek_in_empty (hempty : ∀ name, w (place ++ [name]) = none)
    (hplain : ∀ piece ∈ pieces, IsPlainPiece piece) (hname : ∃ piece ∈ pieces, ¬ IsIdle piece) :
    seek w followLast links place pieces = .error .notFound ∨
      ∃ found name slash, seek w followLast links place pieces = .ok (.free found name slash) := by
  induction pieces with
  | nil => simp at hname
  | cons piece rest ih =>
      obtain ⟨⟨hup, hshort⟩, hrest⟩ := List.forall_mem_cons.mp hplain
      by_cases hi : IsIdle piece
      · rw [seek_idle hi]
        refine ih hrest ?_
        obtain ⟨other, hother, hnot⟩ := hname
        rcases List.mem_cons.mp hother with rfl | hother
        · exact absurd hi hnot
        · exact ⟨other, hother, hnot⟩
      · rw [seek_name ⟨hi, hup, hshort⟩, hempty]
        dsimp only
        split
        · exact .inr ⟨_, _, _, rfl⟩
        · exact .inl rfl

end View

end TodoIndex
