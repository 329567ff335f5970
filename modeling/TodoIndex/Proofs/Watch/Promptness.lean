import TodoIndex.Proofs.Watch.Coalescing

/-! # Prompt and patient watchers

A watcher may rescan a project at once when a file in one of some languages changes, or let every
change wait.  What a watcher owes is a rescan for each project that a waiting path belongs to: a
change adds the owner of its path, and only a rescan takes a project away.  So however prompt a
watcher is, it rescans the owners of all accepted changes and of all paths that waited before, and
nothing else, once a sweep has come when all is quiet.
-/

namespace TodoIndex

namespace Debouncer

/-- Recording a path adds it to those that wait, up to its spelling. -/
theorem exists_paths_record {property : Path → Prop}
    (hsame : ∀ p q : Path, p.same q = true → (property p ↔ property q)) (d : Debouncer)
    (path : Path) (time : Nat) :
    (∃ p ∈ (d.record path time).paths, property p) ↔
      (∃ p ∈ d.paths, property p) ∨ property path := by
  obtain ⟨window, entries⟩ := d
  unfold record paths
  induction entries with
  | nil => simp [setTime]
  | cons first rest ih =>
      obtain ⟨other, old⟩ := first
      simp only [setTime]
      by_cases hother : other.same path = true
      · have hproperty := hsame other path hother
        simp only [hother, if_true, List.map_cons, List.exists_mem_cons_iff]
        rw [hproperty]
        constructor
        · intro h
          exact .inl h
        · rintro (h | h)
          · exact h
          · exact .inl h
      · have hrest := ih
        simp only [hother, Bool.false_eq_true, if_false, List.map_cons, List.exists_mem_cons_iff]
        rw [hrest, or_assoc]

/-- The time at which a path waits is that of its last change, or it waited since then. -/
theorem time_of_mem_setTime {path : Path} {time : Nat} {entries : List (Path × Nat)}
    {e : Path × Nat} (he : e ∈ setTime path time entries) : e.2 = time ∨ e ∈ entries := by
  induction entries with
  | nil => simp_all [setTime]
  | cons first rest ih =>
      obtain ⟨other, old⟩ := first
      rw [setTime] at he
      split at he
      · rcases List.mem_cons.mp he with rfl | he
        · exact .inl rfl
        · exact .inr (List.mem_cons_of_mem _ he)
      · rcases List.mem_cons.mp he with rfl | he
        · exact .inr List.mem_cons_self
        · exact (ih he).imp_right (List.mem_cons_of_mem _)

/-- All that waits will have been quiet for the window by a moment. -/
def QuietBy (d : Debouncer) (last : Nat) : Prop :=
  ∀ e ∈ d.pending, e.2 + d.window ≤ last

theorem QuietBy.record {d : Debouncer} {last : Nat} (h : d.QuietBy last) (path : Path)
    {time : Nat} (htime : time + d.window ≤ last) : (d.record path time).QuietBy last := by
  intro e he
  have hwindow : (d.record path time).window = d.window := rfl
  rw [hwindow]
  rcases time_of_mem_setTime he with hnew | hold
  · rw [hnew]
    exact htime
  · exact h e hold

theorem QuietBy.of_subset {d other : Debouncer} {last : Nat} (h : d.QuietBy last)
    (hwindow : other.window = d.window) (hsubset : other.pending ⊆ d.pending) :
    other.QuietBy last := by
  intro e he
  rw [hwindow]
  exact h e (hsubset he)

/-- Then nothing is left of it when the quiet paths are taken. -/
theorem QuietBy.paths_dropReady {d : Debouncer} {last : Nat} (h : d.QuietBy last) :
    (d.dropReady last).paths = [] := by
  have hnone : (d.dropReady last).pending = [] := by
    unfold dropReady
    refine List.filter_eq_nil_iff.mpr ?_
    intro e he
    have hquiet := h e he
    simp only [isQuiet, Bool.not_eq_true', decide_eq_false_iff_not]
    omega
  rw [paths, hnone]
  rfl

end Debouncer

namespace Loop

variable {l next : Loop} {disk : Disk} {now last : Nat} {change : Change} {path : Path}
  {q : WatchedProject} {x : String × Path} {e : Event} {events : List Event}

/-! ## Accepted changes -/

/-- A change of a file that counts for the project that owns it: of no own document and no ignore
file, not ignored, of no directory, and with an extension. -/
structure Accepts (l : Loop) (disk : Disk) (path : Path) (q : WatchedProject) : Prop where
  foreign : l.isOwn path = false
  owner : l.projects.resolve path = some q
  plain : l.isIgnoreFile path q = false
  kept : q.rejects path = false
  file : disk.isFolder path = false
  extension : (Extension.ofPath? path).isSome = true

/-- An event is an accepted change for a project, which is given by its name and its root. -/
inductive Demands (l : Loop) : Event → String × Path → Prop where
  | change {disk : Disk} {now : Nat} {change : Change} {q : WatchedProject} :
      l.Accepts disk change.path q → Demands l (.message disk now (.ok change)) (q.name, q.root)

/-- Some path waits that belongs to a project, which is given by its name and its root. -/
def Owes (l : Loop) (x : String × Path) : Prop :=
  ∃ p ∈ l.debouncer.paths, ∃ q, l.projects.resolve p = some q ∧ x = (q.name, q.root)

/-- Messages that make no project read its ignore file again, and sweeps. -/
inductive Ordinary (l : Loop) : Event → Prop where
  | change {disk : Disk} {now : Nat} {change : Change} :
      (∀ r, ¬ l.Reloads change.path r) → Ordinary l (.message disk now (.ok change))
  | failure {disk : Disk} {now : Nat} {e : WatchError} : Ordinary l (.message disk now (.error e))
  | sweep {now : Nat} : Ordinary l (.sweep now)

/-- What a change does to what waits and what is due: nothing if it is not accepted, and otherwise
a rescan is due or the path waits.  A path of no project may wait as well. -/
inductive Verdict (l : Loop) (disk : Disk) (now : Nat) (path : Path) :
    Debouncer → List (String × Path) → Prop where
  | dismissed : (∀ q, ¬ l.Accepts disk path q) →
      Verdict l disk now path l.debouncer l.rescans
  | due {q : WatchedProject} : l.Accepts disk path q →
      Verdict l disk now path l.debouncer (l.rescans ++ [(q.name, q.root)])
  | waiting {q : WatchedProject} : l.Accepts disk path q →
      Verdict l disk now path (l.debouncer.record path now) l.rescans
  | unowned : l.projects.resolve path = none →
      Verdict l disk now path (l.debouncer.record path now) l.rescans

theorem Accepts.owner_unique {r : WatchedProject} (h : l.Accepts disk path q)
    (hr : l.projects.resolve path = some r) : q = r :=
  Option.some.inj (h.owner.symm.trans hr)

theorem Passed.verdict (hforeign : l.isOwn change.path = false)
    (hplain : ∀ q, l.projects.resolve change.path = some q → l.isIgnoreFile change.path q = false)
    (h : Passed l disk now change next) :
    Verdict l disk now change.path next.debouncer next.rescans := by
  have haccepts : ∀ {q extension}, l.projects.resolve change.path = some q →
      ignores change.path (l.projects.resolve change.path) = false →
      disk.isFolder change.path = false → Extension.ofPath? change.path = some extension →
      l.Accepts disk change.path q := by
    intro q extension howner hkept hfile hextension
    rw [howner] at hkept
    exact ⟨hforeign, howner, hplain q howner, hkept, hfile, by simp [hextension]⟩
  cases h with
  | ignored hignored =>
      refine .dismissed fun q hq => ?_
      rw [hq.owner] at hignored
      cases hq.kept.symm.trans hignored
  | created _ hfolder | folder _ hfolder =>
      exact .dismissed fun q hq => by cases hq.file.symm.trans hfolder
  | noExtension _ _ hnone => exact .dismissed fun q hq => by simpa [hnone] using hq.extension
  | due hkept hfile hextension howner => exact .due (haccepts howner hkept hfile hextension)
  | waiting hkept hfile hextension _ =>
      cases howner : l.projects.resolve change.path with
      | none => exact .unowned howner
      | some q => exact .waiting (haccepts howner hkept hfile hextension)

theorem verdict_handle (hno : ∀ r, ¬ l.Reloads change.path r) (disk : Disk) (now : Nat) :
    Verdict l disk now change.path (l.handle disk now change).value.debouncer
      (l.handle disk now change).value.rescans := by
  have h := l.handled disk now change
  generalize (l.handle disk now change).value = next at h ⊢
  cases h with
  | own hown => exact .dismissed fun q hq => by cases hq.foreign.symm.trans hown
  | reloaded hr => exact absurd hr (hno _)
  | passed hforeign hplain hpassed => exact hpassed.verdict hforeign hplain

/-! ## What is owed -/

theorem owes_record (path : Path) (now : Nat) :
    ({ l with debouncer := l.debouncer.record path now } : Loop).Owes x ↔
      l.Owes x ∨ ∃ q, l.projects.resolve path = some q ∧ x = (q.name, q.root) := by
  refine Debouncer.exists_paths_record ?_ l.debouncer path now
  intro p q hsame
  rw [WatchSet.resolve_congr _ hsame]

theorem Alike.owes (h : Alike l next) :
    next.Owes x ↔ ({ l with debouncer := next.debouncer } : Loop).Owes x := by
  have htransfer : ∀ {k m : Loop}, Alike k m → k.debouncer = m.debouncer → k.Owes x → m.Owes x := by
    rintro k m hkm hpending ⟨p, hp, q, hq, rfl⟩
    obtain ⟨r, hr, hbare⟩ := hkm.owner hq
    obtain ⟨hname, hroot, -⟩ := WatchedProject.bare_eq_iff.mp hbare
    exact ⟨p, hpending ▸ hp, r, hr, by rw [hname, hroot]⟩
  have halike : Alike { l with debouncer := next.debouncer } next :=
    ⟨h.engine, h.fastPath, h.ownPaths, rfl, h.projects⟩
  exact ⟨htransfer halike.symm rfl, htransfer halike rfl⟩

theorem Alike.demands (h : Alike l next) (hx : l.Demands e x) : next.Demands e x := by
  cases hx with
  | change haccepts =>
      obtain ⟨r, hr, hbare⟩ := h.owner haccepts.owner
      obtain ⟨hname, hroot, -⟩ := WatchedProject.bare_eq_iff.mp hbare
      rw [← hname, ← hroot]
      refine .change ⟨?_, hr, ?_, ?_, haccepts.file, haccepts.extension⟩
      · rw [h.isOwn, haccepts.foreign]
      · rw [h.isIgnoreFile hbare, haccepts.plain]
      · rw [rejects_of_bare hbare, haccepts.kept]

theorem Alike.ordinary (h : Alike l next) (he : l.Ordinary e) : next.Ordinary e := by
  cases he with
  | change hno => exact .change (h.reloads hno)
  | failure => exact .failure
  | sweep => exact .sweep

/-- The projects that an ordinary event makes due or leaves owed are those that were owed and the
one that the event is an accepted change for. -/
structure Settles (l : Loop) (e : Event) (due : List (String × Path)) : Prop where
  alike : Alike l (l.after e)
  rescans : (l.after e).rescans = l.rescans ++ due
  balance : ∀ x, (x ∈ due ∨ (l.after e).Owes x) ↔ (l.Owes x ∨ l.Demands e x)

theorem settles_change (hno : ∀ r, ¬ l.Reloads change.path r) (disk : Disk) (now : Nat) :
    ∃ due, l.Settles (.message disk now (.ok change)) due := by
  obtain ⟨halike, -⟩ := l.handle_leaves disk now change hno
  have hverdict := verdict_handle hno disk now
  have hdemands : ∀ x, l.Demands (.message disk now (.ok change)) x ↔
      ∃ q, l.Accepts disk change.path q ∧ x = (q.name, q.root) := by
    intro x
    constructor
    · rintro ⟨haccepts⟩
      exact ⟨_, haccepts, rfl⟩
    · rintro ⟨q, haccepts, rfl⟩
      exact .change haccepts
  generalize hdebouncer : (l.handle disk now change).value.debouncer = d at hverdict
  generalize hrescans : (l.handle disk now change).value.rescans = rescans at hverdict
  cases hverdict with
  | dismissed hnone =>
      refine ⟨[], halike, ?_, fun x => ?_⟩
      · rw [after, receive, hrescans, List.append_nil]
      · rw [hdemands, after, receive, halike.owes, hdebouncer]
        simp [hnone]
  | @due q haccepts =>
      refine ⟨[(q.name, q.root)], halike, hrescans, fun x => ?_⟩
      rw [hdemands, after, receive, halike.owes, hdebouncer, List.mem_singleton]
      constructor
      · rintro (rfl | howed)
        · exact .inr ⟨q, haccepts, rfl⟩
        · exact .inl howed
      · rintro (howed | ⟨r, hr, rfl⟩)
        · exact .inr howed
        · obtain rfl := haccepts.owner_unique hr.owner
          exact .inl rfl
  | @waiting q haccepts =>
      refine ⟨[], halike, ?_, fun x => ?_⟩
      · rw [after, receive, hrescans, List.append_nil]
      · rw [hdemands, after, receive, halike.owes, hdebouncer, owes_record]
        constructor
        · rintro (hnone | howed | ⟨r, hr, rfl⟩)
          · cases hnone
          · exact .inl howed
          · obtain rfl := haccepts.owner_unique hr
            exact .inr ⟨q, haccepts, rfl⟩
        · rintro (howed | ⟨r, hr, rfl⟩)
          · exact .inr (.inl howed)
          · exact .inr (.inr ⟨r, hr.owner, rfl⟩)
  | unowned hnone =>
      refine ⟨[], halike, ?_, fun x => ?_⟩
      · rw [after, receive, hrescans, List.append_nil]
      · rw [hdemands, after, receive, halike.owes, hdebouncer, owes_record]
        have hno : ∀ q, ¬ l.Accepts disk change.path q := by
          intro q hq
          have howner := hq.owner
          simp [hnone] at howner
        simp [hno, hnone]

theorem settles_sweep (hnames : l.projects.Distinct) (now : Nat) :
    l.Settles (.sweep now) (l.swept now) := by
  have halike : Alike l (l.after (.sweep now)) := l.sweep_alike now
  have hrescans : (l.after (.sweep now)).rescans = l.rescans ++ l.swept now := by
    rw [after, sweep_value]
  refine ⟨halike, hrescans, fun x => ?_⟩
  constructor
  · rintro (hx | ⟨p, hp, q, hq, rfl⟩)
    · rcases owner_of_due _ hx with hnone | ⟨p, hp, q, hq, rfl⟩
      · cases hnone
      · obtain ⟨e, he, -, rfl⟩ := Debouncer.mem_ready.mp hp
        exact .inl ⟨e.1, List.mem_map_of_mem he, q, hq, rfl⟩
    · rw [after, sweep_value] at hp hq
      have hdropped := (Debouncer.mem_paths_dropMatching.mp hp).1
      exact .inl ⟨p, Debouncer.paths_dropReady_subset _ _ hdropped, q, hq, rfl⟩
  · rintro (⟨p, hp, q, hq, rfl⟩ | hx)
    · rcases kept_or_rescanned_by_sweep hnames hp hq now with hkept | ⟨due, hdue, hmem⟩
      · right
        refine ⟨p, hkept, q, ?_, rfl⟩
        rw [after, sweep_value]
        exact hq
      · left
        obtain rfl := List.append_cancel_left (hrescans.symm.trans hdue)
        exact hmem
    · cases hx

/-- Every ordinary event settles what is owed. -/
theorem settles_after (hnames : l.projects.Distinct) (he : l.Ordinary e) :
    ∃ due, l.Settles e due := by
  cases he with
  | change hno => exact settles_change hno _ _
  | failure =>
      refine ⟨[], .refl l, (List.append_nil _).symm, fun x => ?_⟩
      constructor
      · rintro (hnone | howed)
        · cases hnone
        · exact .inl howed
      · rintro (howed | hx)
        · exact .inr howed
        · cases hx
  | sweep => exact ⟨_, settles_sweep hnames _⟩

/-! ## Runs -/

/-- What is owed after a run, or has become due in it, was owed before or is demanded in it. -/
theorem settles_run (hnames : l.projects.Distinct) (hevents : ∀ e ∈ events, l.Ordinary e) :
    Alike l (events.foldl after l) ∧
      ∃ due, (events.foldl after l).rescans = l.rescans ++ due ∧
        ∀ x, (x ∈ due ∨ (events.foldl after l).Owes x) ↔
          (l.Owes x ∨ ∃ e ∈ events, l.Demands e x) := by
  induction events generalizing l with
  | nil => exact ⟨.refl l, [], (List.append_nil _).symm, by simp⟩
  | cons e events ih =>
      have hfirst := hevents e List.mem_cons_self
      obtain ⟨due, halike, hrescans, hbalance⟩ := settles_after hnames hfirst
      have hrest : ∀ other ∈ events, (l.after e).Ordinary other := by
        intro other hother
        exact halike.ordinary (hevents other (List.mem_cons_of_mem _ hother))
      obtain ⟨halike', more, hmore, hbalance'⟩ := ih (hnames.of_bare halike.projects) hrest
      have hdemands : ∀ x, (∃ other ∈ events, (l.after e).Demands other x) ↔
          ∃ other ∈ events, l.Demands other x := by
        intro x
        constructor
        · rintro ⟨other, hother, hx⟩
          exact ⟨other, hother, halike.symm.demands hx⟩
        · rintro ⟨other, hother, hx⟩
          exact ⟨other, hother, halike.demands hx⟩
      rw [List.foldl_cons]
      refine ⟨halike.trans halike', due ++ more, ?_, fun x => ?_⟩
      · rw [hmore, hrescans, List.append_assoc]
      · have hone := hbalance x
        have hrun := hbalance' x
        rw [hdemands] at hrun
        rw [List.mem_append, List.exists_mem_cons_iff, or_assoc, hrun, ← or_assoc, hone, or_assoc]

/-- Whatever happens in time leaves nothing waiting that will not be quiet. -/
theorem quietBy_after (hquiet : l.debouncer.QuietBy last) (he : l.Ordinary e)
    (htime : ∀ disk now message, e = .message disk now message →
      now + l.debouncer.window ≤ last) :
    (l.after e).debouncer.QuietBy last := by
  cases he with
  | @change disk now change hno =>
      have hbefore := htime disk now (.ok change) rfl
      obtain ⟨-, hleaves⟩ := l.handle_leaves disk now change hno
      rw [after, receive]
      generalize (l.handle disk now change).value.debouncer = d at hleaves ⊢
      generalize (l.handle disk now change).value.rescans = rescans at hleaves
      cases hleaves with
      | nothing => exact hquiet
      | due => exact hquiet
      | waiting => exact hquiet.record _ hbefore
  | failure => exact hquiet
  | sweep =>
      rw [after, sweep_value]
      refine hquiet.of_subset rfl ?_
      intro e he
      have hdropped := (List.mem_filter.mp he).1
      exact (List.mem_filter.mp hdropped).1

theorem quietBy_run (hnames : l.projects.Distinct) (hquiet : l.debouncer.QuietBy last)
    (hevents : ∀ e ∈ events, l.Ordinary e)
    (htimes : ∀ disk now message, .message disk now message ∈ events →
      now + l.debouncer.window ≤ last) :
    (events.foldl after l).debouncer.QuietBy last := by
  induction events generalizing l with
  | nil => exact hquiet
  | cons e events ih =>
      have hfirst := hevents e List.mem_cons_self
      obtain ⟨due, halike, -, -⟩ := settles_after hnames hfirst
      rw [List.foldl_cons]
      apply ih (hnames.of_bare halike.projects)
      · apply quietBy_after hquiet hfirst
        rintro disk now message rfl
        exact htimes disk now message List.mem_cons_self
      · intro other hother
        exact halike.ordinary (hevents other (List.mem_cons_of_mem _ hother))
      · intro disk now message hmessage
        rw [halike.window]
        exact htimes disk now message (List.mem_cons_of_mem _ hmessage)

theorem not_owes_sweep (hquiet : l.debouncer.QuietBy last) :
    ¬ (l.after (.sweep last)).Owes x := by
  rintro ⟨p, hp, -⟩
  rw [after, sweep_value] at hp
  have hdropped := (Debouncer.mem_paths_dropMatching.mp hp).1
  rw [hquiet.paths_dropReady] at hdropped
  cases hdropped

/-- A run with a sweep at its end, when all is quiet, makes exactly those rescans due that were
owed before or are demanded in it. -/
theorem mem_due_of_run (hnames : l.projects.Distinct) (hevents : ∀ e ∈ events, l.Ordinary e)
    (hquiet : l.debouncer.QuietBy last)
    (htimes : ∀ disk now message, .message disk now message ∈ events →
      now + l.debouncer.window ≤ last) :
    ∃ due, ((events ++ [Event.sweep last]).foldl after l).rescans = l.rescans ++ due ∧
      ∀ x, x ∈ due ↔ l.Owes x ∨ ∃ e ∈ events, l.Demands e x := by
  have hall : ∀ e ∈ events ++ [Event.sweep last], l.Ordinary e := by
    intro e he
    rcases List.mem_append.mp he with he | he
    · exact hevents e he
    · rw [List.mem_singleton.mp he]
      exact .sweep
  obtain ⟨-, due, hrescans, hbalance⟩ := settles_run hnames hall
  refine ⟨due, hrescans, fun x => ?_⟩
  have hend : ¬ ((events ++ [Event.sweep last]).foldl after l).Owes x := by
    rw [List.foldl_append]
    exact not_owes_sweep (quietBy_run hnames hquiet hevents htimes)
  have hsweep : ¬ l.Demands (.sweep last) x := by
    rintro ⟨⟩
  have hdemands : (∃ e ∈ events ++ [Event.sweep last], l.Demands e x) ↔
      ∃ e ∈ events, l.Demands e x := by
    simp [hsweep, or_and_right, exists_or]
  have hx := hbalance x
  rwa [or_iff_left hend, hdemands] at hx

/-! ## Two paces -/

/-- The loop with other extensions for which it rescans at once. -/
def paced (l : Loop) (hurried : List String) : Loop :=
  { l with fastPath := hurried }

theorem ordinary_paced (hurried : List String) (he : l.Ordinary e) :
    (l.paced hurried).Ordinary e := by
  cases he with
  | change hno =>
      refine .change ?_
      intro r hr
      exact hno r ⟨hr.foreign, hr.owner, hr.ignoreFile⟩
  | failure => exact .failure
  | sweep => exact .sweep

theorem demands_paced (hurried : List String) :
    (l.paced hurried).Demands e x ↔ l.Demands e x := by
  constructor
  · rintro ⟨h⟩
    exact .change ⟨h.foreign, h.owner, h.plain, h.kept, h.file, h.extension⟩
  · rintro ⟨h⟩
    exact .change ⟨h.foreign, h.owner, h.plain, h.kept, h.file, h.extension⟩

/-- The rescans of a run at any pace. -/
theorem mem_due_paced (hnames : l.projects.Distinct) (hevents : ∀ e ∈ events, l.Ordinary e)
    (hquiet : l.debouncer.QuietBy last)
    (htimes : ∀ disk now message, .message disk now message ∈ events →
      now + l.debouncer.window ≤ last) (hurried : List String) :
    ∃ due, ((events ++ [Event.sweep last]).foldl after (l.paced hurried)).rescans = l.rescans ++ due ∧
      ∀ x, x ∈ due ↔ l.Owes x ∨ ∃ e ∈ events, l.Demands e x := by
  have hordinary : ∀ e ∈ events, (l.paced hurried).Ordinary e := by
    intro e he
    exact ordinary_paced hurried (hevents e he)
  obtain ⟨due, hrescans, hdue⟩ :=
    mem_due_of_run (l := l.paced hurried) hnames hordinary hquiet htimes
  refine ⟨due, hrescans, fun x => ?_⟩
  rw [hdue]
  simp only [demands_paced]
  exact Iff.rfl

/-- At any pace an accepted change is followed by a rescan of its project. -/
theorem follows_paced (hnames : l.projects.Distinct) (hquiet : l.debouncer.QuietBy last)
    {before rest : List Event} (hevents : ∀ e' ∈ before ++ e :: rest, l.Ordinary e')
    (htimes : ∀ disk now message, .message disk now message ∈ before ++ e :: rest →
      now + l.debouncer.window ≤ last)
    (hurried : List String) (hx : (before.foldl after (l.paced hurried)).Demands e x) :
    ∃ due, ((before ++ e :: rest ++ [Event.sweep last]).foldl after (l.paced hurried)).rescans =
        (before.foldl after (l.paced hurried)).rescans ++ due ∧ x ∈ due := by
  rw [List.append_assoc, List.foldl_append]
  have hbefore : ∀ e ∈ before, (l.paced hurried).Ordinary e := by
    intro e he
    exact ordinary_paced hurried (hevents e (List.mem_append_left _ he))
  obtain ⟨halike, -⟩ := settles_run (l := l.paced hurried) hnames hbefore
  have hmoment := quietBy_run (l := l.paced hurried) hnames hquiet hbefore (by
    intro disk now message hmessage
    exact htimes disk now message (List.mem_append_left _ hmessage))
  generalize before.foldl after (l.paced hurried) = m at halike hmoment hx ⊢
  have hordinary : ∀ other ∈ e :: rest, m.Ordinary other := by
    intro other hother
    exact halike.ordinary (ordinary_paced hurried (hevents other (List.mem_append_right _ hother)))
  obtain ⟨due, hrescans, hdue⟩ :=
    mem_due_of_run (hnames.of_bare halike.projects) hordinary hmoment (by
      intro disk now message hmessage
      rw [halike.window]
      exact htimes disk now message (List.mem_append_right _ hmessage))
  exact ⟨due, hrescans, (hdue x).mpr (.inr ⟨e, List.mem_cons_self, hx⟩)⟩

/-- **Prompt and patient watchers rescan the same projects.**  Changes come to a watcher in some
state, and sweeps, until a sweep comes when every change and every path that waited before has been
quiet for the window.  If the watcher rescans at once for changes in some languages, or else for
none, the same projects are rescanned, those that own an accepted change or a path that waited.
Either way each accepted change is followed by a rescan of its project, by itself or later. -/
theorem paces_agree {l : Loop} (hnames : l.projects.Distinct) {events : List Event}
    (hevents : ∀ e ∈ events, l.Ordinary e) {last : Nat} (hquiet : l.debouncer.QuietBy last)
    (htimes : ∀ disk now message, .message disk now message ∈ events →
      now + l.debouncer.window ≤ last) (hurried : List String) :
    ∃ prompt patient,
      ((events ++ [Event.sweep last]).foldl after (l.paced hurried)).rescans =
          l.rescans ++ prompt ∧
        ((events ++ [Event.sweep last]).foldl after (l.paced [])).rescans =
          l.rescans ++ patient ∧
        (∀ x, x ∈ prompt ↔ x ∈ patient) ∧
        (∀ x, x ∈ patient ↔ l.Owes x ∨ ∃ e ∈ events, l.Demands e x) ∧
        ∀ pace ∈ [hurried, []], ∀ before e rest x, events = before ++ e :: rest →
          (before.foldl after (l.paced pace)).Demands e x →
          ∃ due, ((events ++ [Event.sweep last]).foldl after (l.paced pace)).rescans =
              (before.foldl after (l.paced pace)).rescans ++ due ∧ x ∈ due := by
  obtain ⟨prompt, hprompt, hmemPrompt⟩ := mem_due_paced hnames hevents hquiet htimes hurried
  obtain ⟨patient, hpatient, hmemPatient⟩ := mem_due_paced hnames hevents hquiet htimes []
  refine ⟨prompt, patient, hprompt, hpatient, ?_, hmemPatient, ?_⟩
  · intro x
    rw [hmemPrompt, hmemPatient]
  · rintro pace - before e rest x rfl hx
    exact follows_paced hnames hquiet hevents htimes pace hx

/-- The calm watcher with a path of the outer project that waits already. -/
def restless : Loop :=
  calm.after (.message nestedDisk 0 (.ok ⟨.ofString "w/n.md", .modified⟩))

/-- The prompt watcher makes four rescans due, of both projects, and so the patient one rescans
both of them. -/
theorem paces_agree_restless :
    ∃ prompt patient,
      ((flurry ++ [Event.sweep 300]).foldl after (restless.paced ["go"])).rescans =
          restless.rescans ++ prompt ∧
        ((flurry ++ [Event.sweep 300]).foldl after (restless.paced [])).rescans =
          restless.rescans ++ patient ∧
        prompt.length = 4 ∧ ("inner", .ofString "w/sub") ∈ patient ∧
        ("outer", .ofString "w") ∈ patient := by
  have hnames : restless.projects.Distinct :=
    distinct_after (distinct_trackAll _ _ WatchSet.distinct_empty) _
  have hevents : ∀ e ∈ flurry, restless.Ordinary e := by
    intro e he
    simp only [flurry, List.mem_cons, List.not_mem_nil, or_false] at he
    rcases he with rfl | rfl | rfl | rfl | rfl | rfl
    · exact .change (not_reloads_of_any (by decide +kernel))
    · exact .change (not_reloads_of_any (by decide +kernel))
    · exact .sweep
    · exact .change (not_reloads_of_any (by decide +kernel))
    · exact .sweep
    · exact .sweep
  have hquiet : restless.debouncer.QuietBy 300 := by
    unfold Debouncer.QuietBy
    decide +kernel
  have hwindow : restless.debouncer.window = 50 := by decide +kernel
  have htimes : ∀ disk now message, .message disk now message ∈ flurry →
      now + restless.debouncer.window ≤ 300 := by
    intro disk now message hmessage
    have htime : now ∈ flurry.filterMap Event.time? := List.mem_filterMap.mpr ⟨_, hmessage, rfl⟩
    have hbound : ∀ now ∈ flurry.filterMap Event.time?, now ≤ 200 := by decide +kernel
    have hnow := hbound now htime
    omega
  have hpromptRun : ((flurry ++ [Event.sweep 300]).foldl after (restless.paced ["go"])).rescans =
      restless.rescans ++ [("inner", .ofString "w/sub"), ("outer", .ofString "w"),
        ("inner", .ofString "w/sub"), ("outer", .ofString "w")] := by
    decide +kernel
  obtain ⟨prompt, patient, hprompt, hpatient, hsame, -, -⟩ :=
    paces_agree hnames hevents hquiet htimes ["go"]
  have hpromptDue := List.append_cancel_left (hprompt.symm.trans hpromptRun)
  refine ⟨prompt, patient, hprompt, hpatient, ?_, ?_, ?_⟩
  · simp [hpromptDue]
  · rw [← hsame, hpromptDue]
    simp
  · rw [← hsame, hpromptDue]
    simp

end Loop

end TodoIndex
