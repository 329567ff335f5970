import Mathlib.Data.List.Induction
import TodoIndex.Proofs.Watch.Delivery
import TodoIndex.Proofs.Watch.Pending
import TodoIndex.Proofs.Watch.Strays
import TodoIndex.Proofs.Watch.Sweeps

/-! # A burst of changes makes one rescan

Changes of one project that come closer together than the window are rescanned once, by the first
sweep that finds one of the paths quiet.  Until then what waits for the project are its paths with
the times of their last changes; a sweep that takes one of them comes after all of the burst, takes
the others with it, and nothing is left to wait for.
-/

namespace TodoIndex

open Text (bytesOf)

namespace Debouncer

variable {path : Path} {time : Nat} {entries : List (Path × Nat)} {changes : List (Path × Nat)}

/-- Recording one path does nothing to paths that differ from it in a property. -/
theorem filter_setTime {property : Path → Bool}
    (hsame : ∀ p q : Path, p.same q = true → property p = property q) (path : Path) (time : Nat)
    (entries : List (Path × Nat)) :
    (setTime path time entries).filter (fun e => property e.1) =
      if property path then setTime path time (entries.filter fun e => property e.1)
      else entries.filter fun e => property e.1 := by
  induction entries with
  | nil => cases h : property path <;> simp [setTime, h]
  | cons e rest ih =>
      obtain ⟨other, old⟩ := e
      rw [setTime]
      by_cases hother : other.same path = true
      · rw [if_pos hother]
        cases h : property path with
        | true => simp [hsame other path hother, h, setTime, hother]
        | false => simp [hsame other path hother, h]
      · rw [if_neg hother, List.filter_cons, List.filter_cons, ih]
        cases hold : property other <;> cases h : property path <;> simp [setTime, hother]

/-- What waits after some changes, if nothing waited before: each path with the time of its last
change. -/
def lastTimes (changes : List (Path × Nat)) : List (Path × Nat) :=
  changes.foldl (fun waiting c => setTime c.1 c.2 waiting) []

theorem lastTimes_concat (changes : List (Path × Nat)) (path : Path) (time : Nat) :
    lastTimes (changes ++ [(path, time)]) = setTime path time (lastTimes changes) := by
  simp [lastTimes]

/-- The spelling of a path that waits does not change. -/
theorem paths_setTime (path : Path) (time : Nat) {e : Path × Nat} (he : e ∈ entries) :
    ∃ f ∈ setTime path time entries, f.1 = e.1 := by
  have hpath : e.1 ∈ (setTime path time entries).map Prod.fst :=
    paths_record ⟨0, entries⟩ path time (List.mem_map_of_mem he)
  exact List.mem_map.mp hpath

theorem single_lastTimes (changes : List (Path × Nat)) : Single (lastTimes changes) := by
  induction changes using List.reverseRecOn with
  | nil => exact List.Pairwise.nil
  | append_singleton changes c ih =>
      rw [lastTimes_concat]
      exact ih.setTime _ _

/-- What waits has the time of a change of its path, and no change of it came later. -/
theorem of_mem_lastTimes (hordered : (changes.map Prod.snd).Pairwise (· ≤ ·)) {e : Path × Nat}
    (he : e ∈ lastTimes changes) :
    (∃ c ∈ changes, c.1.same e.1 = true ∧ c.2 = e.2) ∧
      ∀ c ∈ changes, c.1.same e.1 = true → c.2 ≤ e.2 := by
  induction changes using List.reverseRecOn with
  | nil => cases he
  | append_singleton changes c ih =>
      rw [List.map_append, List.pairwise_append] at hordered
      obtain ⟨hordered, -, hlast⟩ := hordered
      rw [lastTimes_concat] at he
      rcases mem_setTime (single_lastTimes changes) he with ⟨hsame, htime⟩ | ⟨hmem, hsame⟩
      · refine ⟨⟨c, by simp, Path.same_symm hsame, htime.symm⟩, fun d hd _ => ?_⟩
        rw [htime]
        rcases List.mem_append.mp hd with hd | hd
        · exact hlast d.2 (List.mem_map_of_mem hd) c.2 (by simp)
        · exact Nat.le_of_eq (congrArg Prod.snd (List.mem_singleton.mp hd))
      · obtain ⟨⟨d, hd, hdsame, hdtime⟩, hle⟩ := ih hordered hmem
        refine ⟨⟨d, List.mem_append_left _ hd, hdsame, hdtime⟩, fun d hd hdsame => ?_⟩
        rcases List.mem_append.mp hd with hd | hd
        · exact hle d hd hdsame
        · obtain rfl := List.mem_singleton.mp hd
          rw [Path.same_symm hdsame] at hsame
          cases hsame

/-- Every path that changed waits. -/
theorem exists_lastTimes {c : Path × Nat} (hc : c ∈ changes) :
    ∃ e ∈ lastTimes changes, e.1.same c.1 = true := by
  induction changes using List.reverseRecOn with
  | nil => cases hc
  | append_singleton changes d ih =>
      rw [lastTimes_concat]
      rcases List.mem_append.mp hc with hc | hc
      · obtain ⟨e, he, hsame⟩ := ih hc
        obtain ⟨f, hf, hpath⟩ := paths_setTime d.1 d.2 he
        exact ⟨f, hf, hpath ▸ hsame⟩
      · rw [List.mem_singleton.mp hc]
        exact exists_setTime _ _ _

end Debouncer

namespace Loop

variable {l : Loop} {name : String} {events : List Event}

/-! ## Events around a burst -/

/-- A change of a file that a project owns, which has to wait until the file is quiet. -/
structure Waits (l : Loop) (disk : Disk) (path : Path) (q : WatchedProject) : Prop where
  foreign : l.isOwn path = false
  owner : l.projects.resolve path = some q
  plain : l.isIgnoreFile path q = false
  accepted : q.rejects path = false
  file : disk.isFolder path = false
  unhurried : ∃ extension, Extension.ofPath? path = some extension ∧
    l.fastPath.contains extension = false

/-- The events around a burst of changes of one project: its own changes, which have to wait, and
sweeps and all that is said of other projects but changes of their ignore files. -/
inductive Around (l : Loop) (name : String) : Event → Prop where
  | own {disk : Disk} {now : Nat} {change : Change} {q : WatchedProject} :
      l.Waits disk change.path q → q.name = name → Around l name (.message disk now (.ok change))
  | other {disk : Disk} {now : Nat} {change : Change} :
      belongsTo l.projects [name] change.path = false → (∀ r, ¬ l.Reloads change.path r) →
      Around l name (.message disk now (.ok change))
  | failure {disk : Disk} {now : Nat} {e : WatchError} :
      Around l name (.message disk now (.error e))
  | sweep {now : Nat} : Around l name (.sweep now)

namespace Event

/-- The time of a message or a sweep. -/
def time? : Event → Option Nat
  | .message _ now _ => some now
  | .sweep now => some now
  | _ => none

/-- The time of a sweep. -/
def sweepTime? : Event → Option Nat
  | .sweep now => some now
  | _ => none

/-- The change of a path that a project owns, with its time. -/
def changeOf? (projects : WatchSet) (name : String) : Event → Option (Path × Nat)
  | .message _ now (.ok change) =>
      if belongsTo projects [name] change.path then some (change.path, now) else none
  | _ => none

end Event

/-- The changes of paths that a project owns, with their times. -/
def changesOf (projects : WatchSet) (name : String) (events : List Event) : List (Path × Nat) :=
  events.filterMap (Event.changeOf? projects name)

/-- One of the changed paths has been quiet for the window, that is for so long since its last
change. -/
def QuietAt (window : Nat) (changes : List (Path × Nat)) (now : Nat) : Prop :=
  ∃ c ∈ changes, ∀ d ∈ changes, d.1.same c.1 = true → d.2 + window ≤ now

instance (window : Nat) (changes : List (Path × Nat)) (now : Nat) :
    Decidable (QuietAt window changes now) :=
  inferInstanceAs (Decidable (∃ c ∈ changes, ∀ d ∈ changes, _ → _))

/-- Some sweep comes when one of the changed paths has been quiet for the window. -/
def Ripe (window : Nat) (changes : List (Path × Nat)) (events : List Event) : Prop :=
  ∃ now ∈ events.filterMap Event.sweepTime?, QuietAt window changes now

instance (window : Nat) (changes : List (Path × Nat)) (events : List Event) :
    Decidable (Ripe window changes events) :=
  inferInstanceAs (Decidable (∃ now ∈ events.filterMap Event.sweepTime?, _))

theorem Alike.changesOf {next : Loop} (h : Alike l next) (events : List Event) :
    Loop.changesOf next.projects name events = Loop.changesOf l.projects name events := by
  refine congrArg (events.filterMap ·) (funext fun e => ?_)
  unfold Event.changeOf?
  split
  · rw [belongsTo_bare h.projects]
  · rfl

theorem Alike.reloads {next : Loop} (h : Alike l next) {path : Path}
    (hno : ∀ r, ¬ l.Reloads path r) (r : WatchedProject) : ¬ next.Reloads path r := by
  rintro ⟨hforeign, howner, hfile⟩
  have hmap := WatchSet.resolve_of_bare h.projects path
  rw [howner] at hmap
  obtain ⟨q, hq, hbare⟩ := Option.map_eq_some_iff.mp hmap.symm
  exact hno q ⟨h.isOwn path ▸ hforeign, hq, h.isIgnoreFile hbare.symm path ▸ hfile⟩

theorem Alike.around {next : Loop} (h : Alike l next) {e : Event} (he : l.Around name e) :
    next.Around name e := by
  cases he with
  | own hwaits hname =>
      obtain ⟨r, hr, hbare⟩ := h.owner hwaits.owner
      refine .own ⟨?_, hr, ?_, ?_, hwaits.file, ?_⟩
        ((WatchedProject.bare_eq_iff.mp hbare).1.trans hname)
      · rw [h.isOwn, hwaits.foreign]
      · rw [h.isIgnoreFile hbare, hwaits.plain]
      · rw [rejects_of_bare hbare, hwaits.accepted]
      · rw [h.fastPath]
        exact hwaits.unhurried
  | other hother hno =>
      exact .other (by rw [belongsTo_bare h.projects, hother]) (h.reloads hno)
  | failure => exact .failure
  | sweep => exact .sweep

/-! ## What waits for a project -/

/-- What waits of the paths that a project owns. -/
def waitingFor (l : Loop) (name : String) : List (Path × Nat) :=
  l.debouncer.pending.filter fun e => belongsTo l.projects [name] e.1

theorem Waits.handle_value {disk : Disk} {change : Change} {q : WatchedProject}
    (h : l.Waits disk change.path q) (now : Nat) :
    (l.handle disk now change).value =
      { l with debouncer := l.debouncer.record change.path now } := by
  obtain ⟨extension, hextension, hslow⟩ := h.unhurried
  rw [handle_source change h.foreign h.owner h.plain h.accepted h.file hextension,
    if_neg (Bool.eq_false_iff.mp hslow)]

theorem waitingFor_record (path : Path) (now : Nat) (l : Loop) :
    ({ l with debouncer := l.debouncer.record path now } : Loop).waitingFor name =
      if belongsTo l.projects [name] path then Debouncer.setTime path now (l.waitingFor name)
      else l.waitingFor name :=
  Debouncer.filter_setTime (fun _ _ => belongsTo_congr) path now l.debouncer.pending

theorem Alike.waitingFor {next : Loop} (h : Alike l next) :
    next.waitingFor name = ({ l with debouncer := next.debouncer } : Loop).waitingFor name :=
  List.filter_congr fun e _ => belongsTo_bare h.projects [name] e.1

/-- A change of another project's path makes nothing wait for a project and nothing due for it. -/
theorem Leaves.other {path : Path} {now : Nat} {debouncer : Debouncer}
    {rescans : List (String × Path)} (h : Leaves l path now debouncer rescans)
    (hother : belongsTo l.projects [name] path = false) :
    ({ l with debouncer } : Loop).waitingFor name = l.waitingFor name ∧
      ∃ due, rescans = l.rescans ++ due ∧ due.filter (·.1 = name) = [] := by
  cases h with
  | nothing => exact ⟨rfl, [], (List.append_nil _).symm, rfl⟩
  | @due q hq =>
      refine ⟨rfl, _, rfl, ?_⟩
      have hname : q.name ≠ name := by
        intro hname
        rw [belongsTo_iff.mpr ⟨q, hq, hname⟩] at hother
        cases hother
      simpa using hname
  | waiting =>
      refine ⟨?_, [], (List.append_nil _).symm, rfl⟩
      rw [waitingFor_record, hother]
      rfl

/-! ## Sweeps -/

theorem name_mem_swept (now : Nat) : name ∈ (l.swept now).map Prod.fst ↔
    ∃ e ∈ l.waitingFor name, l.debouncer.isQuiet now e.2 = true := by
  simp only [name_mem_swept_iff, waitingFor, List.mem_filter, belongsTo_iff, Debouncer.isQuiet,
    decide_eq_true_eq]
  exact exists_congr fun e => by tauto

/-- A sweep takes all that waits for a project, or nothing of it. -/
theorem waitingFor_sweep (now : Nat) : (l.sweep now).value.waitingFor name =
    if name ∈ (l.swept now).map Prod.fst then [] else l.waitingFor name := by
  rw [sweep_value]
  split
  · rename_i hname
    refine List.filter_eq_nil_iff.mpr fun e he howned => ?_
    obtain ⟨q, hq, rfl⟩ := belongsTo_iff.mp howned
    have hkept : belongsTo l.projects ((l.swept now).map Prod.fst) e.1 = false := by
      simpa using (List.mem_filter.mp he).2
    rw [belongsTo, hq, Option.any_some, List.contains_eq_mem, decide_eq_false_iff_not] at hkept
    exact hkept hname
  · rename_i hname
    simp only [waitingFor, Debouncer.dropMatching, Debouncer.dropReady, List.filter_filter]
    refine List.filter_congr fun e he => ?_
    cases howned : belongsTo l.projects [name] e.1 with
    | false => rfl
    | true =>
        have hquiet : l.debouncer.isQuiet now e.2 = false := by
          refine Bool.eq_false_iff.mpr fun hquiet => hname ((name_mem_swept now).mpr ?_)
          exact ⟨e, List.mem_filter.mpr ⟨he, howned⟩, hquiet⟩
        obtain ⟨q, hq, hqname⟩ := belongsTo_iff.mp howned
        have hkept : belongsTo l.projects ((l.swept now).map Prod.fst) e.1 = false := by
          rw [belongsTo, hq, Option.any_some, List.contains_eq_mem, decide_eq_false_iff_not, hqname]
          exact hname
        simp [hquiet, hkept]

/-- A project is due once, with its own root. -/
theorem filter_swept (hnames : l.projects.Distinct) {p : WatchedProject}
    (hp : p ∈ l.projects.projects) {now : Nat} (hname : p.name ∈ (l.swept now).map Prod.fst) :
    (l.swept now).filter (·.1 = p.name) = [(p.name, p.root)] := by
  have hmem : (p.name, p.root) ∈ l.swept now := mem_due_of_name hnames hp hname
  have hordered : ((l.swept now).map Prod.fst).Pairwise (· < ·) :=
    pairwise_dueProjects _ List.Pairwise.nil
  obtain ⟨before, after, hsplit⟩ := List.append_of_mem hmem
  rw [hsplit, List.map_append, List.map_cons, List.pairwise_append, List.pairwise_cons] at hordered
  obtain ⟨-, ⟨hafter, -⟩, hbefore⟩ := hordered
  have hnone : ∀ x ∈ before ++ after, x.1 ≠ p.name := by
    intro x hx hxname
    rcases List.mem_append.mp hx with hx | hx
    · have hlt := hbefore x.1 (List.mem_map_of_mem hx) p.name List.mem_cons_self
      exact String.lt_irrefl _ (hxname ▸ hlt)
    · have hlt := hafter x.1 (List.mem_map_of_mem hx)
      exact String.lt_irrefl _ (hxname ▸ hlt)
  simp only [hsplit, List.filter_append, List.filter_cons, decide_true, if_true]
  have hnil : ∀ xs ⊆ before ++ after, xs.filter (·.1 = p.name) = [] := fun xs hxs =>
    List.filter_eq_nil_iff.mpr fun x hx => by simpa using hnone x (hxs hx)
  rw [hnil before (List.subset_append_left _ _), hnil after (List.subset_append_right _ _)]
  rfl

theorem sweep_alike (l : Loop) (now : Nat) : Alike l (l.sweep now).value := by
  rw [sweep_value]
  exact ⟨rfl, rfl, rfl, rfl, rfl⟩

/-! ## A burst -/

/-- In the middle of a burst: the changes of a project so far, and the events to come. -/
structure Burst (l : Loop) (p : WatchedProject) (past : List (Path × Nat))
    (events : List Event) : Prop where
  distinct : l.projects.Distinct
  tracked : p.bare ∈ l.projects.bare.projects
  waiting : l.waitingFor p.name = Debouncer.lastTimes past
  around : ∀ e ∈ events, l.Around p.name e
  ordered : (past.map Prod.snd ++ events.filterMap Event.time?).Pairwise (· ≤ ·)
  short : ∀ c ∈ past ++ changesOf l.projects p.name events,
    ∀ d ∈ past ++ changesOf l.projects p.name events, d.2 < c.2 + l.debouncer.window

theorem changesOf_cons (projects : WatchSet) (name : String) (e : Event) (events : List Event) :
    changesOf projects name (e :: events) =
      (e.changeOf? projects name).toList ++ changesOf projects name events := by
  rw [changesOf, List.filterMap_cons]
  cases e.changeOf? projects name <;> rfl

theorem Event.time_of_changeOf? {projects : WatchSet} {e : Event} {c : Path × Nat}
    (h : e.changeOf? projects name = some c) : e.time? = some c.2 := by
  unfold Event.changeOf? at h
  split at h
  · split at h
    · obtain rfl := Option.some.inj h
      rfl
    · cases h
  · cases h

/-- What is left of a burst after an event that does to what waits for the project what the
event says of it. -/
theorem Burst.after {p : WatchedProject} {past : List (Path × Nat)} {e : Event}
    (h : Burst l p past (e :: events)) (halike : Alike l (l.after e))
    (hwaiting : (l.after e).waitingFor p.name =
      Debouncer.lastTimes (past ++ (e.changeOf? l.projects p.name).toList)) :
    Burst (l.after e) p (past ++ (e.changeOf? l.projects p.name).toList) events := by
  refine ⟨h.distinct.of_bare halike.projects, halike.projects ▸ h.tracked, hwaiting,
    fun e he => halike.around (h.around e (List.mem_cons_of_mem _ he)), ?_, ?_⟩
  · have hordered := h.ordered
    rw [List.filterMap_cons] at hordered
    cases hchange : e.changeOf? l.projects p.name with
    | none =>
        cases htime : e.time? with
        | none => simpa [htime] using hordered
        | some now =>
            simp only [htime] at hordered
            simpa using hordered.sublist ((List.sublist_cons_self _ _).append_left _)
    | some c => simpa [Event.time_of_changeOf? hchange] using hordered
  · rw [halike.changesOf, halike.window, List.append_assoc, ← changesOf_cons]
    exact h.short

theorem tracked_of_bare {p : WatchedProject} (h : p.bare ∈ l.projects.bare.projects) :
    ∃ q ∈ l.projects.projects, q.name = p.name ∧ q.root = p.root := by
  obtain ⟨q, hq, hbare⟩ := List.mem_map.mp h
  exact ⟨q, hq, (WatchedProject.bare_eq_iff.mp hbare).1, (WatchedProject.bare_eq_iff.mp hbare).2.1⟩

theorem time_of_mem_changesOf {projects : WatchSet} {c : Path × Nat}
    (hc : c ∈ changesOf projects name events) : c.2 ∈ events.filterMap Event.time? := by
  obtain ⟨e, he, hchange⟩ := List.mem_filterMap.mp hc
  exact List.mem_filterMap.mpr ⟨e, he, Event.time_of_changeOf? hchange⟩

/-- Changes that are still to come when a sweep begins do not come before it. -/
theorem Burst.le_of_mem_changesOf {p : WatchedProject} {past : List (Path × Nat)} {now : Nat}
    (h : Burst l p past (.sweep now :: events)) {c : Path × Nat}
    (hc : c ∈ changesOf l.projects p.name events) : now ≤ c.2 := by
  obtain ⟨-, hordered, -⟩ := List.pairwise_append.mp h.ordered
  exact List.rel_of_pairwise_cons hordered (time_of_mem_changesOf hc)

/-- A sweep that takes what waits for a project comes after all of the burst. -/
theorem Burst.spent {p : WatchedProject} {past : List (Path × Nat)} {now : Nat}
    (h : Burst l p past (.sweep now :: events)) (hdue : p.name ∈ (l.swept now).map Prod.fst) :
    changesOf l.projects p.name events = [] ∧ QuietAt l.debouncer.window past now := by
  obtain ⟨e, he, hquiet⟩ := (name_mem_swept now).mp hdue
  rw [h.waiting] at he
  obtain ⟨⟨c, hc, hsame, htime⟩, hlast⟩ :=
    Debouncer.of_mem_lastTimes (List.pairwise_append.mp h.ordered).1 he
  have hclose := h.short c (List.mem_append_left _ hc)
  have hlong : c.2 + l.debouncer.window ≤ now := by
    have hwindow : l.debouncer.window ≤ now - e.2 := by simpa [Debouncer.isQuiet] using hquiet
    have := hclose c (List.mem_append_left _ hc)
    omega
  constructor
  · refine List.eq_nil_iff_forall_not_mem.mpr fun d hd => ?_
    have hlater := h.le_of_mem_changesOf hd
    have := hclose d (List.mem_append_right _ hd)
    omega
  · refine ⟨c, hc, fun d hd hdsame => ?_⟩
    have hle := hlast d hd (Path.same_trans hdsame hsame)
    omega

/-- A sweep that takes nothing of a project comes before any of its paths has been quiet. -/
theorem Burst.unripe {p : WatchedProject} {past : List (Path × Nat)} {now : Nat}
    (h : Burst l p past (.sweep now :: events)) (hdue : p.name ∉ (l.swept now).map Prod.fst) :
    ¬ QuietAt l.debouncer.window (past ++ changesOf l.projects p.name events) now := by
  rintro ⟨c, hc, hquiet⟩
  have hlong := hquiet c hc (Path.same_self _)
  have hclose := h.short c hc c hc
  rcases List.mem_append.mp hc with hc | hc
  · obtain ⟨e, he, hsame⟩ := Debouncer.exists_lastTimes hc
    obtain ⟨⟨d, hd, hdsame, htime⟩, -⟩ :=
      Debouncer.of_mem_lastTimes (List.pairwise_append.mp h.ordered).1 he
    have hdlong := hquiet d (List.mem_append_left _ hd) (Path.same_trans hdsame hsame)
    refine hdue ((name_mem_swept now).mpr ⟨e, h.waiting ▸ he, ?_⟩)
    simp only [Debouncer.isQuiet, decide_eq_true_eq]
    omega
  · have hlater := h.le_of_mem_changesOf hc
    omega

theorem ripe_message {window : Nat} {changes : List (Path × Nat)} {disk : Disk} {now : Nat}
    {message : Message} :
    Ripe window changes (.message disk now message :: events) ↔ Ripe window changes events :=
  Iff.rfl

theorem ripe_sweep {window : Nat} {changes : List (Path × Nat)} {now : Nat} :
    Ripe window changes (.sweep now :: events) ↔
      QuietAt window changes now ∨ Ripe window changes events := by
  simp [Ripe, Event.sweepTime?]

/-- With a message nothing is due for the project, and its change waits if it is one. -/
theorem Burst.message {p : WatchedProject} {past : List (Path × Nat)} {disk : Disk} {now : Nat}
    {message : Message} (h : Burst l p past (.message disk now message :: events)) :
    Alike l (l.after (.message disk now message)) ∧
      Burst (l.after (.message disk now message)) p
        (past ++ (Event.changeOf? l.projects p.name (.message disk now message)).toList) events ∧
      ∃ due, (l.after (.message disk now message)).rescans = l.rescans ++ due ∧
        due.filter (·.1 = p.name) = [] := by
  cases h.around _ List.mem_cons_self with
  | @own _ _ change q hwaits hname =>
      have hvalue := hwaits.handle_value now
      have howned : belongsTo l.projects [p.name] change.path = true :=
        belongsTo_iff.mpr ⟨q, hwaits.owner, hname⟩
      have halike : Alike l (l.after (.message disk now (.ok change))) := by
        rw [Loop.after, receive, hvalue]
        exact ⟨rfl, rfl, rfl, rfl, rfl⟩
      refine ⟨halike, h.after halike ?_, [], ?_, rfl⟩
      · simp only [Event.changeOf?, howned, if_true, Option.toList_some]
        rw [Loop.after, receive, hvalue, waitingFor_record, howned, if_pos rfl, h.waiting,
          Debouncer.lastTimes_concat]
      · rw [Loop.after, receive, hvalue, List.append_nil]
  | @other _ _ change hother hno =>
      obtain ⟨halike, hleaves⟩ := l.handle_leaves disk now change hno
      have hchange : Event.changeOf? l.projects p.name (.message disk now (.ok change)) = none := by
        simp [Event.changeOf?, hother]
      obtain ⟨hwaiting, hdue⟩ := hleaves.other hother
      refine ⟨halike, h.after halike ?_, hdue⟩
      rw [hchange, Option.toList_none, List.append_nil, ← h.waiting, ← hwaiting]
      exact halike.waitingFor
  | failure =>
      refine ⟨.refl l, h.after (.refl l) ?_, [], (List.append_nil _).symm, rfl⟩
      exact h.waiting.trans (congrArg Debouncer.lastTimes (List.append_nil past).symm)

theorem filter_swept_of_not_mem {now : Nat} (hdue : name ∉ (l.swept now).map Prod.fst) :
    (l.swept now).filter (·.1 = name) = [] := by
  refine List.filter_eq_nil_iff.mpr fun x hx hname => hdue (List.mem_map.mpr ⟨x, hx, ?_⟩)
  simpa using hname

/-- A sweep that takes what waits for the project makes one rescan of it due. -/
theorem Burst.taken {p : WatchedProject} {past : List (Path × Nat)} {now : Nat}
    (h : Burst l p past (.sweep now :: events)) (hdue : p.name ∈ (l.swept now).map Prod.fst) :
    (l.swept now).filter (·.1 = p.name) = [(p.name, p.root)] := by
  obtain ⟨q, hq, hname, hroot⟩ := tracked_of_bare h.tracked
  rw [← hname, ← hroot]
  exact filter_swept h.distinct hq (hname ▸ hdue)

/-- After a sweep that takes what waits for the project there is nothing left of the burst. -/
theorem Burst.over {p : WatchedProject} {past : List (Path × Nat)} {now : Nat}
    (h : Burst l p past (.sweep now :: events)) (hdue : p.name ∈ (l.swept now).map Prod.fst) :
    Burst (l.after (.sweep now)) p [] events := by
  have halike : Alike l (l.after (.sweep now)) := l.sweep_alike now
  refine ⟨h.distinct.of_bare halike.projects, halike.projects ▸ h.tracked, ?_,
    fun e he => halike.around (h.around e (List.mem_cons_of_mem _ he)), ?_, ?_⟩
  · rw [Loop.after, waitingFor_sweep, if_pos hdue]
    rfl
  · exact (List.pairwise_cons.mp (List.pairwise_append.mp h.ordered).2.1).2
  · rw [halike.changesOf, (h.spent hdue).1]
    simp

/-- After a sweep that takes nothing of the project the burst goes on as it was. -/
theorem Burst.kept {p : WatchedProject} {past : List (Path × Nat)} {now : Nat}
    (h : Burst l p past (.sweep now :: events)) (hdue : p.name ∉ (l.swept now).map Prod.fst) :
    Burst (l.after (.sweep now)) p past events := by
  have hnone : (Event.changeOf? l.projects p.name (.sweep now)).toList = [] := rfl
  have hburst := h.after (l.sweep_alike now) (by
    rw [hnone, List.append_nil, Loop.after, waitingFor_sweep, if_neg hdue, h.waiting])
  rwa [hnone, List.append_nil] at hburst

/-- **The rescans of a burst**, from any moment of it. -/
theorem Burst.rescans {p : WatchedProject} {past : List (Path × Nat)}
    (h : Burst l p past events) :
    ∃ due, (events.foldl Loop.after l).rescans = l.rescans ++ due ∧
      due.filter (·.1 = p.name) =
        if Ripe l.debouncer.window (past ++ changesOf l.projects p.name events) events
        then [(p.name, p.root)] else [] := by
  induction events generalizing l past with
  | nil => exact ⟨[], (List.append_nil _).symm, by simp [Ripe]⟩
  | cons e events ih =>
      rw [List.foldl_cons]
      have hone := h.around e List.mem_cons_self
      cases e with
      | message disk now message =>
          obtain ⟨halike, hburst, due, hdue, hfilter⟩ := h.message
          obtain ⟨more, hmore, hrescans⟩ := ih hburst
          refine ⟨due ++ more, by rw [hmore, hdue, List.append_assoc], ?_⟩
          rw [halike.changesOf, halike.window] at hrescans
          rw [List.filter_append, hfilter, hrescans, changesOf_cons, ← List.append_assoc]
          simp [ripe_message]
      | sweep now =>
          have halike : Alike l (l.after (.sweep now)) := l.sweep_alike now
          have hswept : (l.after (.sweep now)).rescans = l.rescans ++ l.swept now := by
            rw [Loop.after, sweep_value]
          have hchanges : changesOf l.projects p.name (.sweep now :: events) =
              changesOf l.projects p.name events := rfl
          by_cases hdue : p.name ∈ (l.swept now).map Prod.fst
          · obtain ⟨more, hmore, hrescans⟩ := ih (h.over hdue)
            obtain ⟨hno, hquiet⟩ := h.spent hdue
            refine ⟨l.swept now ++ more, by rw [hmore, hswept, List.append_assoc], ?_⟩
            rw [halike.changesOf, hno, if_neg (by simp [Ripe, QuietAt])] at hrescans
            rw [List.filter_append, h.taken hdue, hrescans, hchanges, hno, List.append_nil,
              List.append_nil, if_pos (ripe_sweep.mpr (.inl hquiet))]
          · obtain ⟨more, hmore, hrescans⟩ := ih (h.kept hdue)
            refine ⟨l.swept now ++ more, by rw [hmore, hswept, List.append_assoc], ?_⟩
            rw [halike.changesOf, halike.window] at hrescans
            rw [List.filter_append, filter_swept_of_not_mem hdue, hrescans, hchanges]
            simp [ripe_sweep, h.unripe hdue]
      | track disk name root => cases hone
      | untrack name => cases hone

/-- **One rescan for a burst of changes, or none.**  Nothing waits for a project, and then changes
of its files come within less than the window, each of which has to wait.  Between them there are
sweeps and messages about other projects.  If some sweep comes when one of the changed files has
been quiet for the window, exactly one rescan of the project is made due, and otherwise none. -/
theorem rescanned_once_iff_ripe {l : Loop} (hnames : l.projects.Distinct) {p : WatchedProject}
    (hp : p ∈ l.projects.projects)
    (hidle : ∀ path ∈ l.debouncer.paths, belongsTo l.projects [p.name] path = false)
    {events : List Event} (haround : ∀ e ∈ events, l.Around p.name e)
    (hordered : (events.filterMap Event.time?).Pairwise (· ≤ ·))
    (hburst : ∀ c ∈ changesOf l.projects p.name events,
      ∀ d ∈ changesOf l.projects p.name events, d.2 < c.2 + l.debouncer.window) :
    ∃ due, (events.foldl Loop.after l).rescans = l.rescans ++ due ∧
      due.filter (·.1 = p.name) =
        if Ripe l.debouncer.window (changesOf l.projects p.name events) events
        then [(p.name, p.root)] else [] := by
  have hwaiting : l.waitingFor p.name = Debouncer.lastTimes [] :=
    List.filter_eq_nil_iff.mpr fun e he => by
      simpa using hidle e.1 (List.mem_map_of_mem he)
  exact Burst.rescans
    ⟨hnames, List.mem_map_of_mem hp, hwaiting, haround, hordered, hburst⟩

/-- A watcher with a window of fifty that tracks a directory and its subdirectory. -/
def calm : Loop :=
  (Watcher.trackAll nestedDisk [("outer", .ofString "w"), ("inner", .ofString "w/sub")]
    (welcome nestedEngine nestedDisk ⟨some 50, none, none, []⟩)).value

/-- Two changes of the inner project's files and one of the outer project's, with a sweep
before they are quiet, one when the first of the inner ones is, and one later. -/
def flurry : List Event :=
  [.message nestedDisk 0 (.ok ⟨.ofString "w/sub/x.go", .modified⟩),
    .message nestedDisk 10 (.ok ⟨.ofString "w/y.go", .modified⟩),
    .sweep 30,
    .message nestedDisk 40 (.ok ⟨.ofString "w/sub/z.go", .created⟩),
    .sweep 55,
    .sweep 200]

/-- What has to be looked at to know that a change has to wait. -/
theorem around_own {disk : Disk} {now : Nat} {change : Change}
    (hforeign : l.isOwn change.path = false)
    (howner : (l.projects.resolve change.path).any (fun q =>
      !l.isIgnoreFile change.path q && !q.rejects change.path && q.name = name) = true)
    (hfile : disk.isFolder change.path = false)
    (hslow : (Extension.ofPath? change.path).any (fun e => !l.fastPath.contains e) = true) :
    Around l name (.message disk now (.ok change)) := by
  obtain ⟨q, hq, hchecks⟩ := (Option.any_eq_true _ _).mp howner
  obtain ⟨extension, hextension, hunhurried⟩ := (Option.any_eq_true _ _).mp hslow
  simp only [Bool.and_eq_true, Bool.not_eq_true', decide_eq_true_eq] at hchecks hunhurried
  exact .own ⟨hforeign, hq, hchecks.1.1, hchecks.1.2, hfile, extension, hextension, hunhurried⟩
    hchecks.2

theorem not_reloads_of_any {path : Path}
    (hplain : (l.projects.resolve path).any (l.isIgnoreFile path) = false) (r : WatchedProject) :
    ¬ l.Reloads path r := by
  intro hr
  rw [hr.owner, Option.any_some, hr.ignoreFile] at hplain
  cases hplain

theorem around_other {disk : Disk} {now : Nat} {change : Change}
    (hother : belongsTo l.projects [name] change.path = false)
    (hplain : (l.projects.resolve change.path).any (l.isIgnoreFile change.path) = false) :
    Around l name (.message disk now (.ok change)) :=
  .other hother (not_reloads_of_any hplain)

theorem rescanned_once_in_flurry :
    ∃ p ∈ calm.projects.projects, p.name = "inner" ∧
      ∃ due, (flurry.foldl Loop.after calm).rescans = calm.rescans ++ due ∧
        due.filter (·.1 = p.name) =
          if Ripe calm.debouncer.window (changesOf calm.projects p.name flurry) flurry
          then [(p.name, p.root)] else [] := by
  have hnames : calm.projects.Distinct :=
    distinct_trackAll _ _ WatchSet.distinct_empty
  obtain ⟨p, hp, hname⟩ : ∃ p ∈ calm.projects.projects, p.name = "inner" := by decide +kernel
  refine ⟨p, hp, hname, rescanned_once_iff_ripe hnames hp ?_ ?_ ?_ ?_⟩
  · rw [hname]
    decide +kernel
  · rw [hname]
    intro e he
    simp only [flurry, List.mem_cons, List.not_mem_nil, or_false] at he
    rcases he with rfl | rfl | rfl | rfl | rfl | rfl
    · exact around_own (by decide +kernel) (by decide +kernel) (by decide +kernel)
        (by decide +kernel)
    · exact around_other (by decide +kernel) (by decide +kernel)
    · exact .sweep
    · exact around_own (by decide +kernel) (by decide +kernel) (by decide +kernel)
        (by decide +kernel)
    · exact .sweep
    · exact .sweep
  · decide +kernel
  · rw [hname]
    decide +kernel

end Loop

end TodoIndex
