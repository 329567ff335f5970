import Mathlib.Data.List.Induction
import Mathlib.Data.List.Pairwise
import TodoIndex.Proofs.Files.Paths
import TodoIndex.Proofs.Watch.Outlines

/-! # What waits and what is delivered

A path waits from its record until a call returns it or forgets it.  It is returned once for the
records since then, by the first call that finds it quiet for the window or that asks for it, and
in whatever spelling it was recorded, it is one path.
-/

namespace TodoIndex

namespace Debouncer

/-! ## No path waits twice -/

variable {path : Path} {time : Nat} {entries : List (Path × Nat)}

/-- No path waits twice. -/
def Single (entries : List (Path × Nat)) : Prop :=
  entries.Pairwise fun e f => e.1.same f.1 = false

theorem Single.eq (h : Single entries) {e f : Path × Nat} (he : e ∈ entries) (hf : f ∈ entries)
    (hsame : e.1.same f.1 = true) : e = f := by
  have hsymm : Std.Symm fun e f : Path × Nat => e.1.same f.1 = false := by
    constructor
    intro e f hdiffer
    rwa [Path.same_comm]
  by_contra hne
  have hdiffer := List.Pairwise.forall h he hf hne
  rw [hsame] at hdiffer
  cases hdiffer

theorem mem_setTime (h : Single entries) {e : Path × Nat} (he : e ∈ setTime path time entries) :
    (e.1.same path = true ∧ e.2 = time) ∨ (e ∈ entries ∧ e.1.same path = false) := by
  induction entries with
  | nil =>
      obtain rfl := List.mem_singleton.mp he
      exact .inl ⟨Path.same_self _, rfl⟩
  | cons first rest ih =>
      obtain ⟨other, old⟩ := first
      obtain ⟨hfirst, hrest⟩ := List.pairwise_cons.mp h
      rw [setTime] at he
      split at he
      · rename_i hother
        rcases List.mem_cons.mp he with rfl | he
        · exact .inl ⟨hother, rfl⟩
        · refine .inr ⟨List.mem_cons_of_mem _ he, ?_⟩
          rw [Path.same_comm, ← Path.same_congr hother]
          exact hfirst e he
      · rename_i hother
        rcases List.mem_cons.mp he with rfl | he
        · exact .inr ⟨List.mem_cons_self, by simpa using hother⟩
        · exact (ih hrest he).imp_right (And.imp_left (List.mem_cons_of_mem _))

theorem exists_setTime (path : Path) (time : Nat) (entries : List (Path × Nat)) :
    ∃ e ∈ setTime path time entries, e.1.same path = true := by
  induction entries with
  | nil => exact ⟨(path, time), List.mem_cons_self, Path.same_self path⟩
  | cons first rest ih =>
      obtain ⟨other, old⟩ := first
      rw [setTime]
      split
      · rename_i hother
        exact ⟨(other, time), List.mem_cons_self, hother⟩
      · obtain ⟨e, he, hsame⟩ := ih
        exact ⟨e, List.mem_cons_of_mem _ he, hsame⟩

/-- Other paths wait as before. -/
theorem mem_setTime_of_mem {e : Path × Nat} (he : e ∈ entries) (hother : e.1.same path = false) :
    e ∈ setTime path time entries := by
  induction entries with
  | nil => cases he
  | cons first rest ih =>
      obtain ⟨other, old⟩ := first
      rw [setTime]
      rcases List.mem_cons.mp he with rfl | he
      · rw [if_neg (by simp [hother])]
        exact List.mem_cons_self
      · split
        · exact List.mem_cons_of_mem _ he
        · exact List.mem_cons_of_mem _ (ih he)

theorem Single.setTime (h : Single entries) (path : Path) (time : Nat) :
    Single (setTime path time entries) := by
  induction entries with
  | nil => exact List.pairwise_singleton _ _
  | cons first rest ih =>
      obtain ⟨other, old⟩ := first
      obtain ⟨hfirst, hrest⟩ := List.pairwise_cons.mp h
      rw [Debouncer.setTime]
      split
      · exact List.pairwise_cons.mpr ⟨hfirst, hrest⟩
      · rename_i hother
        refine List.pairwise_cons.mpr ⟨fun e he => ?_, ih hrest⟩
        rcases mem_setTime hrest he with ⟨hsame, -⟩ | ⟨hmem, -⟩
        · refine Bool.eq_false_iff.mpr fun hboth => hother ?_
          exact Path.same_trans hboth hsame
        · exact hfirst e hmem

/-! ## Calls -/

/-- What a debouncer is asked to do. -/
inductive Call where
  | record (path : Path) (time : Nat)
  | takeReady (now : Nat)
  | takeWhere (property : Path → Bool)
  | forgetUnder (root : Path)

variable {window now : Nat} {d : Debouncer} {c : Call} {calls : List Call}

/-- The paths that a call returns. -/
def answer (d : Debouncer) : Call → List Path
  | .takeReady now => d.ready now
  | .takeWhere property => d.matching property
  | _ => []

/-- The debouncer after a call. -/
def after (d : Debouncer) : Call → Debouncer
  | .record path time => d.record path time
  | .takeReady now => d.dropReady now
  | .takeWhere property => d.dropMatching property
  | .forgetUnder root => d.forgetUnder root

/-- A new debouncer after some calls. -/
def run (window : Nat) (calls : List Call) : Debouncer :=
  calls.foldl after (.empty window)

theorem run_concat (window : Nat) (calls : List Call) (c : Call) :
    run window (calls ++ [c]) = (run window calls).after c := by
  simp [run]

theorem window_run (window : Nat) (calls : List Call) : (run window calls).window = window := by
  induction calls using List.reverseRecOn with
  | nil => rfl
  | append_singleton calls c ih =>
      rw [run_concat]
      cases c <;> exact ih

/-- A call records a path. -/
def Call.Records (c : Call) (path : Path) : Prop :=
  ∃ q time, c = .record q time ∧ q.same path = true

/-- A path is among those that a call returns. -/
def Returns (d : Debouncer) (c : Call) (path : Path) : Prop :=
  ∃ q ∈ d.answer c, q.same path = true

/-- A call returns a path or forgets it. -/
def Clears (d : Debouncer) (c : Call) (path : Path) : Prop :=
  d.Returns c path ∨ ∃ root, c = .forgetUnder root ∧ path.startsWith root = true

/-- A path waits since a time. -/
def Holds (d : Debouncer) (path : Path) (time : Nat) : Prop :=
  ∃ e ∈ d.pending, e.1.same path = true ∧ e.2 = time

/-- Whether a call takes something away that waits. -/
def takes (d : Debouncer) : Call → Path × Nat → Bool
  | .record _ _, _ => false
  | .takeReady now, e => d.isQuiet now e.2
  | .takeWhere property, e => property e.1
  | .forgetUnder root, e => e.1.startsWith root

theorem mem_matching {property : Path → Bool} :
    path ∈ d.matching property ↔ ∃ e ∈ d.pending, property e.1 = true ∧ e.1 = path := by
  simp only [matching, List.mem_filter, List.mem_map]
  constructor
  · rintro ⟨⟨e, he, rfl⟩, hproperty⟩
    exact ⟨e, he, hproperty, rfl⟩
  · rintro ⟨e, he, hproperty, rfl⟩
    exact ⟨⟨e, he, rfl⟩, hproperty⟩

theorem exists_of_returns (h : d.Returns c path) :
    ∃ e ∈ d.pending, d.takes c e = true ∧ e.1.same path = true := by
  obtain ⟨q, hq, hsame⟩ := h
  cases c with
  | record _ _ => cases hq
  | forgetUnder _ => cases hq
  | takeReady now =>
      obtain ⟨e, he, hquiet, rfl⟩ := mem_ready.mp hq
      exact ⟨e, he, hquiet, hsame⟩
  | takeWhere property =>
      obtain ⟨e, he, hproperty, rfl⟩ := mem_matching.mp hq
      exact ⟨e, he, hproperty, hsame⟩

/-- What a call takes away is returned, or else forgotten. -/
theorem clears_of_takes {e : Path × Nat} (he : e ∈ d.pending) (htakes : d.takes c e = true)
    (hsame : e.1.same path = true) : d.Clears c path := by
  cases c with
  | record _ _ => cases htakes
  | takeReady now => exact .inl ⟨e.1, mem_ready.mpr ⟨e, he, htakes, rfl⟩, hsame⟩
  | takeWhere property => exact .inl ⟨e.1, mem_matching.mpr ⟨e, he, htakes, rfl⟩, hsame⟩
  | forgetUnder root => exact .inr ⟨root, rfl, (Path.startsWith_congr hsame).symm.trans htakes⟩

theorem clears_iff_takes (h : Single d.pending) {e : Path × Nat} (he : e ∈ d.pending)
    (hsame : e.1.same path = true) : d.Clears c path ↔ d.takes c e = true := by
  constructor
  · intro hclears
    rcases hclears with hreturns | ⟨root, rfl, hbelow⟩
    · obtain ⟨f, hf, htakes, hfsame⟩ := exists_of_returns hreturns
      rwa [h.eq he hf (Path.same_trans hsame (Path.same_symm hfsame))]
    · exact (Path.startsWith_congr hsame).trans hbelow
  · intro htakes
    exact clears_of_takes he htakes hsame

theorem not_clears_record (d : Debouncer) (q : Path) (time : Nat) (path : Path) :
    ¬ d.Clears (.record q time) path := by
  intro hclears
  rcases hclears with ⟨f, hf, -⟩ | ⟨root, heq, -⟩
  · cases hf
  · cases heq

/-- A call that records nothing leaves what it does not take away. -/
theorem pending_after (hrecord : ∀ q time, c ≠ .record q time) :
    (d.after c).pending = d.pending.filter (!d.takes c ·) := by
  cases c with
  | record q time => exact absurd rfl (hrecord q time)
  | _ => rfl

theorem Single.after (h : Single d.pending) (c : Call) : Single (d.after c).pending := by
  cases c with
  | record path time => exact h.setTime path time
  | _ =>
      rw [pending_after (by simp)]
      exact h.filter _

theorem single_run (window : Nat) (calls : List Call) : Single (run window calls).pending := by
  induction calls using List.reverseRecOn with
  | nil => exact List.Pairwise.nil
  | append_singleton calls c ih =>
      rw [run_concat]
      exact ih.after c

/-! ## What waits -/

theorem holds_record_iff (h : Single d.pending) (q : Path) (now : Nat) :
    (d.record q now).Holds path time ↔
      q.same path = true ∧ now = time ∨ d.Holds path time ∧ q.same path = false := by
  constructor
  · intro hholds
    obtain ⟨e, he, hsame, htime⟩ := hholds
    rcases mem_setTime h he with ⟨hq, hnow⟩ | ⟨hmem, hother⟩
    · exact .inl ⟨Path.same_trans (Path.same_symm hq) hsame, hnow.symm.trans htime⟩
    · refine .inr ⟨⟨e, hmem, hsame, htime⟩, ?_⟩
      rw [Path.same_comm, ← Path.same_congr hsame]
      exact hother
  · intro hcase
    rcases hcase with ⟨hq, rfl⟩ | ⟨⟨e, he, hsame, htime⟩, hq⟩
    · obtain ⟨e, he, hsame⟩ := exists_setTime q now d.pending
      rcases mem_setTime h he with ⟨-, hnow⟩ | ⟨-, hother⟩
      · exact ⟨e, he, Path.same_trans hsame hq, hnow⟩
      · rw [hsame] at hother
        cases hother
    · refine ⟨e, mem_setTime_of_mem he ?_, hsame, htime⟩
      rw [Path.same_congr hsame, Path.same_comm]
      exact hq

theorem holds_after_removal_iff (h : Single d.pending)
    (hrecord : ∀ q time, c ≠ .record q time) :
    (d.after c).Holds path time ↔ d.Holds path time ∧ ¬ d.Clears c path := by
  rw [Holds, pending_after hrecord]
  constructor
  · intro hholds
    obtain ⟨e, he, hsame, htime⟩ := hholds
    obtain ⟨hmem, hkept⟩ := List.mem_filter.mp he
    refine ⟨⟨e, hmem, hsame, htime⟩, ?_⟩
    rw [clears_iff_takes h hmem hsame]
    simpa using hkept
  · intro hholds
    obtain ⟨⟨e, he, hsame, htime⟩, hclears⟩ := hholds
    rw [clears_iff_takes h he hsame] at hclears
    exact ⟨e, List.mem_filter.mpr ⟨he, by simpa using hclears⟩, hsame, htime⟩

/-- A path waits since it was recorded last, unless a call has returned or forgotten it. -/
theorem holds_after_iff (h : Single d.pending) : (d.after c).Holds path time ↔
    (∃ q, c = .record q time ∧ q.same path = true) ∨
      d.Holds path time ∧ ¬ c.Records path ∧ ¬ d.Clears c path := by
  cases c with
  | record q now =>
      have hrecords : Call.Records (.record q now) path ↔ q.same path = true := by
        simp [Call.Records]
      rw [after, holds_record_iff h, hrecords]
      simp [not_clears_record, and_comm]
  | _ =>
      rw [holds_after_removal_iff h (by simp)]
      simp [Call.Records]

/-- A path was recorded last at a time, and no call has returned or forgotten it since. -/
def Outstanding (window : Nat) (calls : List Call) (path : Path) (time : Nat) : Prop :=
  ∃ before q behind, calls = before ++ .record q time :: behind ∧ q.same path = true ∧
    ∀ first c rest, behind = first ++ c :: rest →
      ¬ c.Records path ∧ ¬ (run window (before ++ .record q time :: first)).Clears c path

theorem outstanding_concat_iff : Outstanding window (calls ++ [c]) path time ↔
    (∃ q, c = .record q time ∧ q.same path = true) ∨
      Outstanding window calls path time ∧ ¬ c.Records path ∧
        ¬ (run window calls).Clears c path := by
  constructor
  · intro h
    obtain ⟨before, q, behind, hsplit, hsame, hbehind⟩ := h
    rcases concat_split_iff.mp hsplit with ⟨-, -, hlast⟩ | ⟨front, rfl, rfl⟩
    · exact .inl ⟨q, hlast.symm, hsame⟩
    · refine .inr ⟨⟨before, q, front, rfl, hsame, ?_⟩, hbehind front c [] rfl⟩
      intro first e rest hfront
      exact hbehind first e (rest ++ [c]) (by simp [hfront])
  · intro h
    rcases h with ⟨q, rfl, hsame⟩ | ⟨⟨before, q, behind, rfl, hsame, hbehind⟩, hlast⟩
    · refine ⟨calls, q, [], rfl, hsame, ?_⟩
      intro first e rest hsplit
      simp at hsplit
    · refine ⟨before, q, behind ++ [c], by simp, hsame, ?_⟩
      intro first e rest hsplit
      rcases concat_split_iff.mp hsplit with ⟨-, rfl, rfl⟩ | ⟨front, -, hfront⟩
      · exact hlast
      · exact hbehind first e front hfront

theorem holds_run_iff : (run window calls).Holds path time ↔
    Outstanding window calls path time := by
  induction calls using List.reverseRecOn generalizing time with
  | nil =>
      constructor
      · intro h
        obtain ⟨e, he, -⟩ := h
        cases he
      · intro h
        obtain ⟨before, q, behind, heq, -⟩ := h
        simp at heq
  | append_singleton calls c ih =>
      rw [run_concat, holds_after_iff (single_run window calls), outstanding_concat_iff, ih]

/-! ## What is delivered -/

theorem returns_takeReady_iff :
    d.Returns (.takeReady now) path ↔ ∃ time, d.Holds path time ∧ d.window ≤ now - time := by
  constructor
  · intro hreturns
    obtain ⟨e, he, htakes, hsame⟩ := exists_of_returns hreturns
    exact ⟨e.2, ⟨e, he, hsame, rfl⟩, of_decide_eq_true htakes⟩
  · intro hholds
    obtain ⟨time, ⟨e, he, hsame, rfl⟩, hquiet⟩ := hholds
    exact ⟨e.1, mem_ready.mpr ⟨e, he, decide_eq_true hquiet, rfl⟩, hsame⟩

/-- What a call returns waited until then. -/
theorem holds_of_returns (h : d.Returns c path) : ∃ time, d.Holds path time := by
  obtain ⟨e, he, -, hsame⟩ := exists_of_returns h
  exact ⟨e.2, e, he, hsame, rfl⟩

theorem Single.differ (h : Single entries) (chosen : Path × Nat → Bool) :
    ((entries.filter chosen).map Prod.fst).Pairwise fun p q => p.same q = false :=
  List.pairwise_map.mpr (h.filter chosen)

theorem differ_answer (h : Single d.pending) (c : Call) :
    (d.answer c).Pairwise fun p q => p.same q = false := by
  cases c with
  | record _ _ => exact List.Pairwise.nil
  | forgetUnder _ => exact List.Pairwise.nil
  | takeReady now =>
      refine (List.Perm.pairwise_iff ?_ (List.mergeSort_perm _ _)).mpr (h.differ _)
      intro p q hdiffer
      rwa [Path.same_comm]
  | takeWhere property =>
      rw [answer, matching, List.filter_map]
      exact h.differ _

theorem pairwise_sortPaths (paths : List Path) :
    (sortPaths paths).Pairwise fun p q => (p.compare q).isLE = true := by
  have hle : ∀ p q : Path, (p.compare q != .gt) = (p.compare q).isLE := by
    intro p q
    cases p.compare q <;> rfl
  simp only [sortPaths, hle]
  apply List.pairwise_mergeSort
  · intro p q r hpq hqr
    exact Std.TransCmp.isLE_trans hpq hqr
  · intro p q
    have hswap : q.compare p = (p.compare q).swap := Std.OrientedCmp.eq_swap
    rw [hswap]
    cases p.compare q <;> rfl

/-- The paths that are quiet come in order. -/
theorem sorted_ready (h : Single d.pending) (now : Nat) :
    (d.ready now).Pairwise fun p q => p.compare q = .lt := by
  refine ((pairwise_sortPaths _).and (differ_answer h (.takeReady now))).imp ?_
  intro p q hboth
  obtain ⟨hle, hdiffer⟩ := hboth
  cases hcompare : p.compare q with
  | lt => rfl
  | eq =>
      rw [Path.compare_eq_iff.mp hcompare] at hdiffer
      cases hdiffer
  | gt =>
      rw [hcompare] at hle
      cases hle

/-- What was returned or forgotten does not wait before it is recorded again. -/
theorem not_holds_of_clears {before behind : List Call}
    (hclears : (run window before).Clears c path)
    (hbehind : ∀ e ∈ behind, ¬ e.Records path) (time : Nat) :
    ¬ (run window (before ++ c :: behind)).Holds path time := by
  induction behind using List.reverseRecOn with
  | nil =>
      rw [run_concat, holds_after_iff (single_run window before)]
      intro h
      rcases h with ⟨q, rfl, -⟩ | ⟨-, -, hkept⟩
      · exact not_clears_record _ _ _ _ hclears
      · exact hkept hclears
  | append_singleton behind last ih =>
      rw [← List.cons_append, ← List.append_assoc, run_concat,
        holds_after_iff (single_run window _)]
      intro h
      rcases h with ⟨q, rfl, hsame⟩ | ⟨hholds, -⟩
      · exact hbehind _ (by simp) ⟨q, time, rfl, hsame⟩
      · exact ih (fun e he => hbehind e (List.mem_append_left _ he)) hholds

/-- **Nothing is lost and nothing comes twice.**  After any calls, with times in any order, the
paths that wait are those that were recorded and that no call has returned or forgotten since, each
since its last record.  Of these a call for the quiet ones returns those with a last record that is
as long ago as the window is, in the order of paths; only this call orders what it returns, a call
for the paths with a property does not.  No call returns a path twice, and a path that was returned
or forgotten is not returned before it is recorded again. -/
theorem delivers (window : Nat) (calls : List Call) :
    (∀ path time, (run window calls).Holds path time ↔ Outstanding window calls path time) ∧
      (∀ now path, (run window calls).Returns (.takeReady now) path ↔
        ∃ time, Outstanding window calls path time ∧ window ≤ now - time) ∧
      (∀ now, ((run window calls).answer (.takeReady now)).Pairwise fun p q =>
        p.compare q = .lt) ∧
      (∀ c, ((run window calls).answer c).Pairwise fun p q => p.same q = false) ∧
      ∀ before c behind path, calls = before ++ c :: behind →
        (run window before).Clears c path → (∀ e ∈ behind, ¬ e.Records path) →
        ∀ last, ¬ (run window calls).Returns last path := by
  refine ⟨fun path time => holds_run_iff, ?_, ?_, ?_, ?_⟩
  · intro now path
    simp only [returns_takeReady_iff, holds_run_iff, window_run]
  · intro now
    exact sorted_ready (single_run window calls) now
  · intro c
    exact differ_answer (single_run window calls) c
  · intro before c behind path hcalls hclears hbehind last hreturns
    rw [hcalls] at hreturns
    obtain ⟨time, hholds⟩ := holds_of_returns hreturns
    exact not_holds_of_clears hclears hbehind time hholds

/-- A file that is saved twice, the second time in another spelling and before the clock is where it
was, and a call that finds it not quiet yet. -/
def resaved : List Call :=
  [.record (.ofString "w/x.go") 40, .record (.ofString "w//x.go") 30, .takeReady 60]

/-- It is quiet fifty after the second save, and it is not returned again. -/
theorem delivers_resaved :
    ¬ (run 50 resaved).Returns (.takeReady 79) (.ofString "w/x.go") ∧
      (run 50 resaved).Returns (.takeReady 80) (.ofString "w/x.go") ∧
      ∀ last, ¬ (run 50 (resaved ++ [.takeReady 80])).Returns last (.ofString "w/x.go") := by
  have hpending : (run 50 resaved).pending = [(.ofString "w/x.go", 30)] := by decide +kernel
  have hholds : (run 50 resaved).Holds (.ofString "w/x.go") 30 := by
    rw [Holds, hpending]
    exact ⟨_, List.mem_singleton_self _, Path.same_self _, rfl⟩
  obtain ⟨hwaits, hready, -⟩ := delivers 50 resaved
  have hreturns : (run 50 resaved).Returns (.takeReady 80) (.ofString "w/x.go") :=
    (hready 80 _).mpr ⟨30, (hwaits _ _).mp hholds, by omega⟩
  obtain ⟨-, -, -, -, hover⟩ := delivers 50 (resaved ++ [.takeReady 80])
  refine ⟨?_, hreturns, hover resaved (.takeReady 80) [] _ rfl (.inl hreturns) (by simp)⟩
  intro hearly
  obtain ⟨time, houtstanding, hquiet⟩ := (hready 79 _).mp hearly
  obtain ⟨e, he, -, htime⟩ := (hwaits _ _).mpr houtstanding
  rw [hpending, List.mem_singleton] at he
  rw [he] at htime
  change 30 = time at htime
  omega

end Debouncer

end TodoIndex
