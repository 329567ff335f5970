import TodoIndex.Proofs.Files.Writes
import TodoIndex.Proofs.Files.Paths

/-! # Drafts

A draft is a file under a name that is written down nowhere.  No path but its own can see it, so
while it is written, and after it is taken away, everything else is found as before; and moving
it puts its contents at the end of another path in one step.
-/

namespace TodoIndex

open Text (Bytes)

namespace Disk

/-- A name that stands nowhere on the disk. -/
structure Unused (d : Disk) (t : Bytes) : Prop where
  not_idle : ¬ IsIdle t
  not_up : t ≠ [Path.dot, Path.dot]
  nowhere : t ∉ d.words

variable {d first : Disk} {t : Bytes} {p target : Path} {place : List Bytes} {x : Option Entry}

theorem Unused.not_mem_place (h : d.Unused t) {entry : Entry} (hp : d.view place = some entry) :
    t ∉ place :=
  fun hm => h.nowhere (List.mem_append_left _ ((Folder.words_of_view hp).1 hm))

theorem Unused.view_none (h : d.Unused t) (place : List Bytes) : d.view (place ++ [t]) = none := by
  cases hp : d.view (place ++ [t]) with
  | none => rfl
  | some entry => exact absurd (List.mem_append_right _ List.mem_cons_self) (h.not_mem_place hp)

theorem Unused.shuns (h : d.Unused t) : View.Shuns t d.view := by
  intro place link hp hm
  exact h.nowhere (List.mem_append_left _ ((Folder.words_of_view hp).2 link rfl hm))

theorem Unused.not_mem_start (h : d.Unused t) (p : Path) : t ∉ d.start p := by
  unfold start
  split
  · exact List.not_mem_nil
  · exact fun hm => h.nowhere (List.mem_append_right _ hm)

/-- A disk that differs from another one in what an unused name stands for in one directory. -/
structure Drafted (first : Disk) (place : List Bytes) (t : Bytes) (x : Option Entry) (d : Disk) :
    Prop where
  draft : View.IsDraft x
  here : d.here = first.here
  view : d.view = first.view.set (place ++ [t]) x

theorem Unused.drafted_self (h : first.Unused t) (place : List Bytes) :
    Drafted first place t none first :=
  ⟨.inl rfl, rfl, (View.set_eq_self (h.view_none place)).symm⟩

theorem Drafted.agree (h : Drafted first place t x d) (hu : first.Unused t) :
    View.AgreeBut t first.view d.view where
  top := by
    rw [h.view, View.set_other (by simp)]
  others := by
    intro other name hname
    rw [h.view, View.set_other]
    intro heq
    exact hname (by simpa using (List.append_inj' heq rfl).2)
  left := fun other => .inl (hu.view_none other)
  right := by
    intro other
    rw [h.view]
    by_cases ho : other ++ [t] = place ++ [t]
    · rw [ho, View.set_same]
      exact h.draft
    · rw [View.set_other ho]
      exact .inl (hu.view_none other)

/-- A path that does not name the draft leads where it led. -/
theorem Drafted.seek_eq (h : Drafted first place t x d) (hu : first.Unused t)
    (ht : t ∉ Path.pieces p.bytes) (followLast : Bool) :
    d.seek followLast p = first.seek followLast p := by
  unfold seek
  rw [start_congr h.here, View.seek_congr (h.agree hu) hu.shuns ht]

theorem seek_avoids (hu : d.Unused t) (ht : t ∉ Path.pieces p.bytes) {followLast : Bool}
    {spot : Spot} (h : d.seek followLast p = .ok spot) : spot.Avoids t :=
  View.seek_avoids hu.shuns (hu.not_mem_start p) ht (seek_eq_ok_iff.mp h).2

/-- The paths that name a draft: they end in its name and have it nowhere else. -/
def Names (t : Bytes) (p : Path) : Prop :=
  ∃ front, Path.pieces p.bytes = front ++ [t] ∧ t ∉ front

/-- The path of a draft is refused whatever the draft is, or leads to it. -/
theorem seek_draft (hu : first.Unused t) (hp : Names t p) :
    (∃ e, ∀ place x d followLast, Drafted first place t x d → d.seek followLast p = .error e) ∨
      ∃ at_, first.view at_ = some .aFolder ∧
        ∀ x d followLast, Drafted first at_ t x d →
          d.seek followLast p = View.arrive d.view at_ t := by
  obtain ⟨front, hpieces, hfront⟩ := hp
  unfold seek
  cases refusal? p with
  | some e => exact .inl ⟨e, fun place x d followLast h => rfl⟩
  | none =>
      have harrive := @View.seek_arrive first.view maxLinks (first.start p) _ _ hu.shuns
        hu.not_idle hu.not_up hfront
      simp only [hpieces]
      refine harrive.imp ?_ ?_
      · rintro ⟨e, he⟩
        refine ⟨e, fun place x d followLast h => ?_⟩
        rw [start_congr h.here]
        exact he d.view followLast (isTree_view d) (h.agree hu)
      · rintro ⟨at_, hat, he⟩
        refine ⟨at_, hat, fun x d followLast h => ?_⟩
        rw [start_congr h.here]
        exact he d.view followLast (isTree_view d) (h.agree hu)

/-- Where the path of a draft leads. -/
structure LeadsTo (first : Disk) (p : Path) (at_ : List Bytes) (t : Bytes) : Prop where
  folder : first.view at_ = some .aFolder
  seek : ∀ x d followLast, Drafted first at_ t x d →
    d.seek followLast p = View.arrive d.view at_ t

variable {at_ : List Bytes}

theorem Drafted.view_at (h : Drafted first at_ t x d) : d.view (at_ ++ [t]) = x := by
  rw [h.view, View.set_same]

/-- The path of a draft leads to the file that it is. -/
theorem Drafted.seek_self (hl : LeadsTo first p at_ t) {content : Bytes} {executable : Bool}
    (h : Drafted first at_ t (some (.file content executable)) d) :
    d.seek false p = .ok (.found (at_ ++ [t]) (.file content executable)) := by
  rw [hl.seek _ d false h, View.arrive, h.view_at]

/-- Writing a draft fails and leaves it, or makes it what is written. -/
theorem Drafted.writeFile (hl : LeadsTo first p at_ t) (h : Drafted first at_ t x d)
    (content : Bytes) :
    (∃ e, d.writeFile p content = (.error e, d)) ∨
      ∃ executable written, d.writeFile p content = (.ok (), written) ∧
        Drafted first at_ t (some (.file content executable)) written := by
  refine (writeFile_cases d p content).imp id ?_
  rintro ⟨spot, end_, executable, written, hseek, hends, -, hwrite, hhere, hview⟩
  refine ⟨executable, written, hwrite, .inr ⟨_, _, rfl⟩, hhere.trans h.here, ?_⟩
  have hend : end_ = at_ ++ [t] := by
    rw [hl.seek x d true h, View.arrive] at hseek
    split at hseek
    · cases hseek
      exact hends.symm
    · cases hseek
      exact hends.1.symm
  rw [hview, h.view, hend, View.set_set]

/-- Removing a draft leaves the disk as it was before there was one. -/
theorem Drafted.remove (hl : LeadsTo first p at_ t) (h : Drafted first at_ t x d) :
    Drafted first at_ t none (d.remove p).2 := by
  have hseek := hl.seek x d false h
  rw [View.arrive, h.view_at] at hseek
  rcases h.draft with rfl | ⟨content, executable, rfl⟩
  · rw [remove_of_not_found]
    · exact h
    · intro place entry hfound
      rw [hseek] at hfound
      cases hfound
  · obtain ⟨removed, hremove, hhere, hview⟩ := remove_of_file hseek
    rw [hremove]
    exact ⟨.inl rfl, hhere.trans h.here, by rw [hview, h.view, View.set_set]⟩

theorem Drafted.view_eq (h : Drafted first at_ t none d) (hu : first.Unused t) :
    d.view = first.view := by
  rw [h.view, View.set_eq_self (hu.view_none at_)]

/-- A file has taken the place at the end of a path. -/
structure Replaced (first d : Disk) (target : Path) (content : Bytes) : Prop where
  here : d.here = first.here
  ends : ∃ spot new executable, first.seek false target = .ok spot ∧ spot.EndsAt new ∧
    first.view new ≠ some .aFolder ∧
    d.view = first.view.set new (some (.file content executable))

/-- Moving a draft fails and leaves it, or puts its contents at the end of the path. -/
theorem Drafted.move (hu : first.Unused t) (hl : LeadsTo first p at_ t) {content : Bytes}
    {executable : Bool} (h : Drafted first at_ t (some (.file content executable)) d)
    (ht : t ∉ Path.pieces target.bytes) :
    (∃ e, d.move p target = (.error e, d)) ∨
      ∃ moved, d.move p target = (.ok (), moved) ∧ Replaced first moved target content := by
  rcases move_cases (h.seek_self hl) with herror | ⟨-, hself⟩ | ⟨new, moved, hmove, hmoved⟩
  · exact .inl herror
  · rw [h.seek_eq hu ht] at hself
    exact absurd (List.mem_append_right _ List.mem_cons_self) (seek_avoids hu ht hself)
  · obtain ⟨spot, hseek, hends⟩ := hmoved.ends
    rw [h.seek_eq hu ht] at hseek
    refine .inr ⟨moved, hmove, hmoved.here.trans h.here, spot, new, executable, hseek, hends,
      ?_, ?_⟩
    · have hfree := hmoved.noFolder
      rwa [h.view, View.set_other (Ne.symm hmoved.apart)] at hfree
    · rw [hmoved.view, h.view, View.set_set, View.set_eq_self (hu.view_none at_)]

end Disk

end TodoIndex
