import TodoIndex.Proofs.Watch.Reactions

/-! # What becomes of pending changes

A change that waits is rescanned by the project it belongs to, the one with the deepest root.
Untracking a project and reading its ignore file again drop what waits below its root instead,
and there a project inside it may own what is dropped.  So a pending path gets lost in exactly
one way: another project whose root lies above it is forgotten.
-/

namespace TodoIndex

open Text (bytesOf)

namespace Loop

/-! ## Pending paths -/

/-- With an event the loop makes a rescan of a project due. -/
def Rescans (l : Loop) (e : Event) (q : WatchedProject) : Prop :=
  ∃ due, (l.after e).rescans = l.rescans ++ due ∧ (q.name, q.root) ∈ due

/-- With an event the loop forgets what is pending below the root of a project. -/
inductive Forgets (l : Loop) : Event → WatchedProject → Prop where
  | untracked {name : String} {r : WatchedProject} :
      l.projects.get? name = some r → Forgets l (.untrack name) r
  | reloaded {disk : Disk} {now : Nat} {change : Change} {r : WatchedProject} :
      l.Reloads change.path r → Forgets l (.message disk now (.ok change)) r

/-- A sweep rescans the owner of every path that it takes. -/
theorem kept_or_rescanned_by_sweep {l : Loop} (h : l.projects.Distinct) {p : Path}
    {q : WatchedProject} (hp : p ∈ l.debouncer.paths) (hq : l.projects.resolve p = some q)
    (now : Nat) :
    p ∈ (l.after (.sweep now)).debouncer.paths ∨ l.Rescans (.sweep now) q := by
  have hrescans : q.name ∈ (l.swept now).map Prod.fst → l.Rescans (.sweep now) q := by
    intro hname
    refine ⟨l.swept now, by rw [after, sweep_value], ?_⟩
    exact mem_due_of_name h (WatchSet.mem_of_resolve hq) hname
  rcases Debouncer.mem_ready_or_dropReady now hp with hready | hdropped
  · exact .inr (hrescans (name_mem_dueProjects hready hq))
  · by_cases hname : q.name ∈ (l.swept now).map Prod.fst
    · exact .inr (hrescans hname)
    · left
      rw [after, sweep_value, Debouncer.mem_paths_dropMatching]
      refine ⟨hdropped, ?_⟩
      simpa [belongsTo, hq] using hname

/-- A pending path outlives an event with which one project is forgotten if it is not below the
root of that project, or else if the project is rescanned as its owner. -/
theorem kept_or_rescanned_of_forgets {l : Loop} {e : Event} {p : Path} {q r : WatchedProject}
    (hp : p ∈ l.debouncer.paths) (hforgets : ∀ other, l.Forgets e other ↔ other = r)
    (hafter : (l.after e).debouncer = l.debouncer.forgetUnder r.root)
    (hrescans : l.Rescans e q ↔ r.name = q.name) :
    (p ∈ (l.after e).debouncer.paths ∨ l.Rescans e q) ↔
      ∀ r, l.Forgets e r → r.name ≠ q.name → p.startsWith r.root = false := by
  rw [hafter, Debouncer.mem_paths_forgetUnder, hrescans]
  constructor
  · rintro (⟨-, hout⟩ | hname) other hother hne
    · rwa [(hforgets other).mp hother]
    · exact absurd (by rwa [(hforgets other).mp hother]) hne
  · intro hall
    by_cases hname : r.name = q.name
    · exact .inr hname
    · exact .inl ⟨hp, hall r ((hforgets r).mpr rfl) hname⟩

/-- **What waits is kept or rescanned unless it is forgotten with a project around it.**  Whatever
the loop reacts to, short of untracking the owner of a pending path: after it the path is still
pending or a rescan of its owner is due, exactly if no other project above the path is untracked
or has its ignore file read again. -/
theorem kept_or_rescanned_iff {l : Loop} (h : Reachable l) {p : Path} {q : WatchedProject}
    (hp : p ∈ l.debouncer.paths) (hq : l.projects.resolve p = some q) {e : Event}
    (he : e ≠ .untrack q.name) :
    (p ∈ (l.after e).debouncer.paths ∨ l.Rescans e q) ↔
      ∀ r, l.Forgets e r → r.name ≠ q.name → p.startsWith r.root = false := by
  cases e with
  | message disk now message =>
      cases message with
      | error e =>
          refine iff_of_true (.inl hp) fun r hr => ?_
          cases hr
      | ok change =>
          rcases handle_value l disk now change with ⟨r, hr, hl⟩ | ⟨hno, hkeeps⟩
          · obtain ⟨source, filter, folders, hl'⟩ := reloadFilter_value l disk r
            have hforgets : ∀ other, l.Forgets (.message disk now (.ok change)) other ↔
                other = r := by
              intro other
              constructor
              · rintro (_ | hother)
                exact Option.some.inj (hother.owner.symm.trans hr.owner)
              · rintro rfl
                exact .reloaded hr
            have hafter := hl.trans hl'
            refine kept_or_rescanned_of_forgets hp hforgets (by rw [after, receive, hafter]) ?_
            constructor
            · rintro ⟨due, hdue, hmem⟩
              rw [after, receive, hafter] at hdue
              rw [← List.append_cancel_left hdue, List.mem_singleton] at hmem
              exact (Prod.ext_iff.mp hmem).1.symm
            · intro hname
              obtain rfl : r = q := h.distinct.eq_of_name (WatchSet.mem_of_resolve hr.owner)
                (WatchSet.mem_of_resolve hq) hname
              exact ⟨[(r.name, r.root)], by rw [after, receive, hafter], List.mem_singleton_self _⟩
          · refine iff_of_true (.inl (hkeeps.paths hp)) fun r hr => ?_
            cases hr with
            | reloaded hr => exact absurd hr (hno r)
  | track disk name root =>
      obtain ⟨source, filter, folders, hl⟩ := after_track l disk name root
      refine iff_of_true (.inl ?_) fun r hr => ?_
      · rw [hl]
        exact hp
      · cases hr
  | untrack name =>
      rcases untrack_value l name with ⟨hnone, hl⟩ | ⟨r, source, hr, hl⟩
      · refine iff_of_true (.inl ?_) fun r hr => ?_
        · rwa [after, hl]
        · cases hr with
          | untracked hr => rw [hnone] at hr; cases hr
      · have hforgets : ∀ other, l.Forgets (.untrack name) other ↔ other = r := by
          intro other
          constructor
          · rintro ⟨hother⟩
            exact Option.some.inj (hother.symm.trans hr)
          · rintro rfl
            exact .untracked hr
        refine kept_or_rescanned_of_forgets hp hforgets (by rw [after, hl]) (iff_of_false ?_ ?_)
        · rintro ⟨due, hdue, hmem⟩
          rw [after, hl] at hdue
          rw [List.self_eq_append_right.mp hdue] at hmem
          cases hmem
        · intro hname
          rw [WatchSet.name_of_get? hr] at hname
          exact he (by rw [hname])
  | sweep now =>
      refine iff_of_true (kept_or_rescanned_by_sweep h.distinct hp hq now) fun r hr => ?_
      cases hr

/-! ## A project inside another -/

/-- A directory `w` with a Go file in its subdirectory `sub`. -/
def nestedDisk : Disk :=
  ⟨.folder (bytesOf "w")
    (.folder (bytesOf "sub") (.file (bytesOf "x.go") [] false .empty) .empty) .empty, []⟩

def nestedEngine : Engine :=
  .make (.defaults (Path.ofString "data")) ⟨[]⟩ fun _ _ _ _ => default

/-- A watcher that tracks the directory and its subdirectory as two projects. -/
def nestedStart : Loop :=
  (Watcher.trackAll nestedDisk [("outer", .ofString "w"), ("inner", .ofString "w/sub")]
    { built nestedEngine (.make fun _ _ => none) nestedDisk ⟨some 0, none, none, []⟩ with
      source := { Source.make fun _ _ => none with taken := true } }).value

def nestedPath : Path :=
  .ofString "w/sub/x.go"

/-- The watcher after a change of the file, which the inner project owns. -/
def nested : Loop :=
  nestedStart.after (.message nestedDisk 0 (.ok ⟨nestedPath, .modified⟩))

theorem reachable_nested : Reachable nested := by
  refine Reachable.react _ ?_
  exact .start nestedEngine (.make fun _ _ => none) nestedDisk nestedDisk
    ⟨some 0, none, none, []⟩ (.ok [("outer", .ofString "w"), ("inner", .ofString "w/sub")]) rfl

theorem pending_nested : nestedPath ∈ nested.debouncer.paths := by
  decide +kernel

theorem owner_nested : ∃ q, nested.projects.resolve nestedPath = some q ∧ q.name = "inner" := by
  have hname : (nested.projects.resolve nestedPath).map (·.name) = some "inner" := by
    decide +kernel
  exact Option.map_eq_some_iff.mp hname

theorem kept_or_rescanned_iff_nested :
    ∃ q, nested.projects.resolve nestedPath = some q ∧
      ((nestedPath ∈ (nested.after (.untrack "outer")).debouncer.paths ∨
          nested.Rescans (.untrack "outer") q) ↔
        ∀ r, nested.Forgets (.untrack "outer") r → r.name ≠ q.name →
          nestedPath.startsWith r.root = false) := by
  obtain ⟨q, hq, hname⟩ := owner_nested
  refine ⟨q, hq, kept_or_rescanned_iff reachable_nested pending_nested hq ?_⟩
  rw [hname]
  simp

/-- The file's change is lost when the outer project is untracked, and when its ignore file
changes; the inner project is still watched and never rescanned for it. -/
theorem pending_lost_nested :
    Reachable nested ∧ nestedPath ∈ nested.debouncer.paths ∧
      ∃ q, nested.projects.resolve nestedPath = some q ∧ q.name = "inner" ∧
        ∀ e ∈ [.untrack "outer",
            .message nestedDisk 0 (.ok ⟨.ofString "w/.todoignore", .modified⟩)],
          ¬ (nestedPath ∈ (nested.after e).debouncer.paths ∨ nested.Rescans e q) := by
  refine ⟨reachable_nested, pending_nested, ?_⟩
  obtain ⟨q, hq, hname⟩ := owner_nested
  refine ⟨q, hq, hname, fun e he => ?_⟩
  -- Neither event leaves the path pending; the second one rescans the outer project alone.
  have hafter : nestedPath ∉ (nested.after e).debouncer.paths ∧
      ∀ x ∈ (nested.after e).rescans, x.1 ≠ "inner" := by
    simp only [List.mem_cons, List.not_mem_nil, or_false] at he
    rcases he with rfl | rfl <;> decide +kernel
  rintro (hp | ⟨due, hdue, hmem⟩)
  · exact hafter.1 hp
  · refine hafter.2 (q.name, q.root) ?_ hname
    rw [hdue]
    exact List.mem_append_right _ hmem

end Loop

end TodoIndex
