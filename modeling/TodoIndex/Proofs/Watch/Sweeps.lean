import TodoIndex.Proofs.Watch.Pending

/-! # What a sweep does

A sweep makes one rescan due for each project that owns a path which has been quiet for the window,
in the order of their names.  The rescan reads the whole tree, so all that waits for such a project
is done with, quiet or not; what is quiet and belongs to nobody is dropped.
-/

namespace TodoIndex

open Text (bytesOf)

namespace Loop

variable {l : Loop} {now : Nat} {q : WatchedProject} {path : Path}

/-- A project owns a pending path that has been quiet for the window. -/
def OwnsQuiet (l : Loop) (now : Nat) (q : WatchedProject) : Prop :=
  ∃ e ∈ l.debouncer.pending, l.debouncer.window ≤ now - e.2 ∧ l.projects.resolve e.1 = some q

theorem OwnsQuiet.tracked (h : l.OwnsQuiet now q) : q ∈ l.projects.projects := by
  obtain ⟨e, -, -, howner⟩ := h
  exact WatchSet.mem_of_resolve howner

theorem mem_ready_iff : path ∈ l.debouncer.ready now ↔
    ∃ e ∈ l.debouncer.pending, l.debouncer.window ≤ now - e.2 ∧ e.1 = path := by
  simp only [Debouncer.mem_ready, Debouncer.isQuiet, decide_eq_true_eq]

/-- A name is due if its project owns a quiet path. -/
theorem name_mem_swept_iff {name : String} : name ∈ (l.swept now).map Prod.fst ↔
    ∃ e ∈ l.debouncer.pending, l.debouncer.window ≤ now - e.2 ∧
      ∃ q, l.projects.resolve e.1 = some q ∧ q.name = name := by
  constructor
  · intro hname
    obtain ⟨x, hx, hxname⟩ := List.mem_map.mp hname
    rcases owner_of_due _ hx with hnone | ⟨path, hpath, q, howner, rfl⟩
    · cases hnone
    · obtain ⟨e, he, hquiet, rfl⟩ := mem_ready_iff.mp hpath
      exact ⟨e, he, hquiet, q, howner, hxname⟩
  · intro h
    obtain ⟨e, he, hquiet, q, howner, rfl⟩ := h
    exact name_mem_dueProjects (mem_ready_iff.mpr ⟨e, he, hquiet, rfl⟩) howner

theorem mem_names_swept_iff (hnames : l.projects.Distinct) (hq : q ∈ l.projects.projects) :
    q.name ∈ (l.swept now).map Prod.fst ↔ l.OwnsQuiet now q := by
  rw [name_mem_swept_iff]
  constructor
  · intro h
    obtain ⟨e, he, hquiet, other, howner, hname⟩ := h
    rw [hnames.eq_of_name (WatchSet.mem_of_resolve howner) hq hname] at howner
    exact ⟨e, he, hquiet, howner⟩
  · intro h
    obtain ⟨e, he, hquiet, howner⟩ := h
    exact ⟨e, he, hquiet, q, howner, rfl⟩

/-- The projects that own a quiet path are due with their roots, and nothing else is. -/
theorem mem_swept_iff (hnames : l.projects.Distinct) {x : String × Path} :
    x ∈ l.swept now ↔ ∃ q ∈ l.projects.projects, x = (q.name, q.root) ∧ l.OwnsQuiet now q := by
  constructor
  · intro hx
    rcases owner_of_due _ hx with hnone | ⟨path, -, q, howner, rfl⟩
    · cases hnone
    · have hq := WatchSet.mem_of_resolve howner
      exact ⟨q, hq, rfl, (mem_names_swept_iff hnames hq).mp (List.mem_map_of_mem hx)⟩
  · intro h
    obtain ⟨q, hq, rfl, howns⟩ := h
    exact mem_due_of_name hnames hq ((mem_names_swept_iff hnames hq).mpr howns)

/-- A path is done with if its owner owns some quiet path. -/
theorem belongsTo_swept_iff (hnames : l.projects.Distinct) :
    belongsTo l.projects ((l.swept now).map Prod.fst) path = true ↔
      ∃ q, l.projects.resolve path = some q ∧ l.OwnsQuiet now q := by
  rw [belongsTo, Option.any_eq_true]
  apply exists_congr
  intro q
  rw [List.contains_iff_mem]
  constructor
  · intro h
    exact ⟨h.1, (mem_names_swept_iff hnames (WatchSet.mem_of_resolve h.1)).mp h.2⟩
  · intro h
    exact ⟨h.1, (mem_names_swept_iff hnames h.2.tracked).mpr h.2⟩

/-- **What a sweep does.**  It makes one rescan due for each project that owns a quiet path, with
its root and in the order of the names, and none else.  Of what was pending there stays, with its
time, what is neither quiet nor owned by one of these projects; nothing else changes. -/
theorem sweep_rescans_owners (hnames : l.projects.Distinct) (now : Nat) :
    ∃ (due : List (String × Path)) (stays : Path × Nat → Bool),
      (l.sweep now).value =
          { l with
            debouncer := { l.debouncer with pending := l.debouncer.pending.filter stays }
            rescans := l.rescans ++ due } ∧
        (due.map Prod.fst).Pairwise (· < ·) ∧
        (∀ x, x ∈ due ↔
          ∃ q ∈ l.projects.projects, x = (q.name, q.root) ∧ l.OwnsQuiet now q) ∧
        ∀ e ∈ l.debouncer.pending, stays e = true ↔
          ¬ l.debouncer.window ≤ now - e.2 ∧
            ¬ ∃ q, l.projects.resolve e.1 = some q ∧ l.OwnsQuiet now q := by
  refine ⟨l.swept now, fun e => !belongsTo l.projects ((l.swept now).map Prod.fst) e.1 &&
    !l.debouncer.isQuiet now e.2, ?_, ?_, ?_, ?_⟩
  · rw [sweep_value, Debouncer.dropMatching, Debouncer.dropReady, List.filter_filter]
  · exact pairwise_dueProjects _ List.Pairwise.nil
  · intro x
    exact mem_swept_iff hnames
  · intro e he
    rw [Bool.and_eq_true, Bool.not_eq_true', Bool.not_eq_true', ← Bool.not_eq_true,
      ← Bool.not_eq_true, belongsTo_swept_iff hnames, Debouncer.isQuiet, decide_eq_true_eq,
      and_comm]

/-! ## A sweep with something of everything -/

/-- A watcher of a directory and its subdirectory, when paths of both and of nobody wait; of those
of the outer project, and of nobody, one is quiet. -/
def mingled : Loop :=
  { nestedStart with debouncer := ⟨50, [(.ofString "v/y.go", 0), (.ofString "v/z.go", 90),
      (.ofString "w/a.go", 0), (.ofString "w/b.go", 90), (.ofString "w/sub/x.go", 90)]⟩ }

theorem swept_mingled : mingled.swept 100 = [("outer", .ofString "w")] := by
  have hready : mingled.debouncer.ready 100 = [.ofString "v/y.go", .ofString "w/a.go"] :=
    List.mergeSort_of_pairwise (by decide +kernel)
  rw [swept, hready]
  decide +kernel

/-- The outer project is rescanned once, and both its paths are done with; the inner one's path and
the path of nobody that is not quiet still wait. -/
theorem sweep_rescans_owners_mingled :
    mingled.projects.Distinct ∧
      (∃ q ∈ mingled.projects.projects, ("outer", .ofString "w") = (q.name, q.root) ∧
        mingled.OwnsQuiet 100 q) ∧
      (mingled.sweep 100).value.rescans = mingled.rescans ++ [("outer", .ofString "w")] ∧
      (mingled.sweep 100).value.debouncer.pending =
        [(.ofString "v/z.go", 90), (.ofString "w/sub/x.go", 90)] := by
  have hnames : mingled.projects.Distinct := by
    change nestedStart.projects.Distinct
    exact distinct_trackAll _ _ WatchSet.distinct_empty
  have hrescans : (mingled.sweep 100).value.rescans =
      mingled.rescans ++ [("outer", .ofString "w")] := by rw [sweep_value, swept_mingled]
  have hpending : (mingled.sweep 100).value.debouncer.pending =
      [(.ofString "v/z.go", 90), (.ofString "w/sub/x.go", 90)] := by
    rw [sweep_value, swept_mingled]
    decide +kernel
  obtain ⟨due, stays, hvalue, -, howners, -⟩ := sweep_rescans_owners hnames 100
  have hdue : mingled.rescans ++ due = mingled.rescans ++ [("outer", .ofString "w")] := by
    rw [← hrescans, hvalue]
  have hmem : ("outer", .ofString "w") ∈ due := by
    rw [List.append_cancel_left hdue]
    exact List.mem_singleton_self _
  exact ⟨hnames, (howners _).mp hmem, hrescans, hpending⟩

end Loop

end TodoIndex
