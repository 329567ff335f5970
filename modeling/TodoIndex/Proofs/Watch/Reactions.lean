import TodoIndex.Proofs.Watch.Ownership
import TodoIndex.Watch.Company

/-! # What the watcher's loop does

The loop reacts to messages, commands and the clock.  For each reaction a lemma says what it
leaves of the loop; most keep all that is pending, and only untracking a project and reading its
ignore file again drop what is below its root.  Whatever a watcher does in company with its
rescans, its loop is one of the reachable ones.
-/

namespace TodoIndex

/-- A history with one step more is split at that step, or at a step it had before. -/
theorem concat_split_iff {α : Type} {history before behind : List α} {last x : α} :
    history ++ [last] = before ++ x :: behind ↔
      (behind = [] ∧ before = history ∧ x = last) ∨
        ∃ front, behind = front ++ [last] ∧ history = before ++ x :: front := by
  constructor
  · intro h
    rcases List.eq_nil_or_concat behind with rfl | ⟨front, other, rfl⟩
    · obtain ⟨rfl, rfl⟩ := List.append_singleton_inj.mp h
      exact .inl ⟨rfl, rfl, rfl⟩
    · rw [List.concat_eq_append, ← List.cons_append, ← List.append_assoc] at h
      obtain ⟨rfl, rfl⟩ := List.append_singleton_inj.mp h
      exact .inr ⟨front, List.concat_eq_append, rfl⟩
  · intro h
    rcases h with ⟨rfl, rfl, rfl⟩ | ⟨front, rfl, rfl⟩
    · rfl
    · rw [List.append_assoc, List.cons_append]

namespace Debouncer

/-- The paths that wait, quiet or not. -/
def paths (d : Debouncer) : List Path :=
  d.pending.map Prod.fst

theorem paths_record (d : Debouncer) (path : Path) (time : Nat) :
    d.paths ⊆ (d.record path time).paths := by
  unfold paths record
  generalize d.pending = pending
  induction pending with
  | nil => exact List.nil_subset _
  | cons e rest ih =>
      obtain ⟨other, old⟩ := e
      rw [setTime]
      split
      · exact fun _ h => h
      · exact List.cons_subset_cons _ ih

theorem mem_paths_forgetUnder {d : Debouncer} {root path : Path} :
    path ∈ (d.forgetUnder root).paths ↔ path ∈ d.paths ∧ path.startsWith root = false := by
  simp [paths, forgetUnder]

theorem mem_ready {d : Debouncer} {now : Nat} {path : Path} :
    path ∈ d.ready now ↔ ∃ e ∈ d.pending, d.isQuiet now e.2 = true ∧ e.1 = path := by
  simp [ready, sortPaths, List.mem_mergeSort, and_assoc]

theorem paths_dropReady_subset (d : Debouncer) (now : Nat) : (d.dropReady now).paths ⊆ d.paths :=
  ((List.filter_sublist).map Prod.fst).subset

/-- A path that waits is quiet, or it still waits when the quiet ones are taken. -/
theorem mem_ready_or_dropReady {d : Debouncer} {path : Path} (now : Nat) (h : path ∈ d.paths) :
    path ∈ d.ready now ∨ path ∈ (d.dropReady now).paths := by
  obtain ⟨⟨path, time⟩, hmem, rfl⟩ := List.mem_map.mp h
  cases hquiet : d.isQuiet now time with
  | true =>
      refine .inl ((List.mergeSort_perm _ _).mem_iff.mpr ?_)
      exact List.mem_map.mpr ⟨_, List.mem_filter.mpr ⟨hmem, hquiet⟩, rfl⟩
  | false =>
      refine .inr (List.mem_map.mpr ⟨_, List.mem_filter.mpr ⟨hmem, ?_⟩, rfl⟩)
      simp [hquiet]

theorem mem_paths_dropMatching {d : Debouncer} {property : Path → Bool} {path : Path} :
    path ∈ (d.dropMatching property).paths ↔ path ∈ d.paths ∧ property path = false := by
  simp [paths, dropMatching]

end Debouncer

namespace Loop

/-! ## Events and runs -/

/-- What the loop of a watcher reacts to: a message of the source, a command, or the clock. -/
inductive Event where
  | message (disk : Disk) (now : Nat) (message : Message)
  | track (disk : Disk) (name : String) (root : Path)
  | untrack (name : String)
  | sweep (now : Nat)

/-- The loop after it has reacted to an event. -/
def after (l : Loop) : Event → Loop
  | .message disk now message => (l.receive disk now message).value
  | .track disk name root => ((l.track disk name root).value.2.spawn name root).value
  | .untrack name => (l.untrack name).value.2
  | .sweep now => (l.sweep now).value

/-- The loops that a started watcher can come to. -/
inductive Reachable : Loop → Prop where
  | start {l : Loop} (engine : Engine) (source : Source) (first disk : Disk)
      (options : Watcher.Options) (tracked : Except RegistryError (List (String × Path))) :
      ((Watcher.ofEngine engine source first options).value.start disk tracked).value.2 =
        .watching l → Reachable l
  | react {l : Loop} (e : Event) : Reachable l → Reachable (l.after e)
  /-- Some of the rescans that are due begin. -/
  | launch {l : Loop} (count : Nat) :
      Reachable l → Reachable { l with rescans := l.rescans.drop count }

/-! ## What each reaction changes -/

theorem track_value (l : Loop) (disk : Disk) (name : String) (root : Path) :
    ∃ source filter folders, (l.track disk name root).value.2 =
      { l with source, projects := l.projects.insert ⟨name, root, filter, folders⟩ } := by
  simp only [track, Noted.value_bind]
  split <;> exact ⟨_, _, _, rfl⟩

theorem untrack_value (l : Loop) (name : String) :
    (l.projects.get? name = none ∧ (l.untrack name).value.2 = l) ∨
      ∃ r source, l.projects.get? name = some r ∧ (l.untrack name).value.2 =
        { l with source, projects := l.projects.remove name,
                 debouncer := l.debouncer.forgetUnder r.root } := by
  unfold untrack
  cases h : l.projects.get? name with
  | none => exact .inl ⟨rfl, rfl⟩
  | some r => exact .inr ⟨r, _, rfl, rfl⟩

theorem reloadFilter_value (l : Loop) (disk : Disk) (r : WatchedProject) :
    ∃ source filter folders, (l.reloadFilter disk r).value =
      { l with source,
               projects := l.projects.modify r.name fun p => { p with filter, folders },
               debouncer := l.debouncer.forgetUnder r.root,
               rescans := l.rescans ++ [(r.name, r.root)] } :=
  ⟨_, _, _, rfl⟩

/-- A loop that has dropped no pending path and no rescan that was due. -/
structure Keeps (l after : Loop) : Prop where
  paths : l.debouncer.paths ⊆ after.debouncer.paths
  rescans : l.rescans <+: after.rescans
  distinct : l.projects.Distinct → after.projects.Distinct

theorem Keeps.refl (l : Loop) : Keeps l l :=
  ⟨fun _ h => h, List.prefix_refl _, id⟩

theorem keeps_subscribeNew (l : Loop) (disk : Disk) (folder : Path)
    (owner : Option WatchedProject) : Keeps l (l.subscribeNew disk folder owner).value := by
  refine ⟨fun _ h => h, List.prefix_refl _, fun h => ?_⟩
  cases owner with
  | none => exact h
  | some p => exact h.modify fun _ => rfl

/-- A change that makes the loop read the ignore file of a project again. -/
structure Reloads (l : Loop) (path : Path) (r : WatchedProject) : Prop where
  foreign : l.isOwn path = false
  owner : l.projects.resolve path = some r
  ignoreFile : l.isIgnoreFile path r = true

section
variable {l next : Loop} {disk : Disk} {now : Nat} {change : Change}

/-- What the loop makes of a change that is of no own document and no ignore file: nothing if the
path is ignored, or is a directory that is not new, or has no extension; a new directory is
subscribed; and of a file that counts the owner is rescanned, or the path waits. -/
inductive Passed (l : Loop) (disk : Disk) (now : Nat) (change : Change) : Loop → Prop where
  | ignored : ignores change.path (l.projects.resolve change.path) = true →
      Passed l disk now change l
  | created : ignores change.path (l.projects.resolve change.path) = false →
      disk.isFolder change.path = true → change.kind = .created →
      Passed l disk now change
        (l.subscribeNew disk change.path (l.projects.resolve change.path)).value
  | folder : ignores change.path (l.projects.resolve change.path) = false →
      disk.isFolder change.path = true → change.kind ≠ .created → Passed l disk now change l
  | noExtension : ignores change.path (l.projects.resolve change.path) = false →
      disk.isFolder change.path = false → Extension.ofPath? change.path = none →
      Passed l disk now change l
  | due {q : WatchedProject} {extension : String} :
      ignores change.path (l.projects.resolve change.path) = false →
      disk.isFolder change.path = false → Extension.ofPath? change.path = some extension →
      l.projects.resolve change.path = some q → l.fastPath.contains extension = true →
      Passed l disk now change { l with rescans := l.rescans ++ [(q.name, q.root)] }
  | waiting {extension : String} :
      ignores change.path (l.projects.resolve change.path) = false →
      disk.isFolder change.path = false → Extension.ofPath? change.path = some extension →
      (∀ q, l.projects.resolve change.path = some q → l.fastPath.contains extension = false) →
      Passed l disk now change { l with debouncer := l.debouncer.record change.path now }

/-- What the loop makes of a change: an own document is left alone, an ignore file is read again,
and everything else is passed on. -/
inductive Handled (l : Loop) (disk : Disk) (now : Nat) (change : Change) : Loop → Prop where
  | own : l.isOwn change.path = true → Handled l disk now change l
  | reloaded {r : WatchedProject} : l.Reloads change.path r →
      Handled l disk now change (l.reloadFilter disk r).value
  | passed {next : Loop} : l.isOwn change.path = false →
      (∀ q, l.projects.resolve change.path = some q → l.isIgnoreFile change.path q = false) →
      Passed l disk now change next → Handled l disk now change next

theorem passed_handleFile (now : Nat)
    (hkept : ignores change.path (l.projects.resolve change.path) = false)
    (hfile : disk.isFolder change.path = false) :
    Passed l disk now change
      (l.handleFile now change.path (l.projects.resolve change.path)).value := by
  unfold handleFile
  split
  · exact .noExtension hkept hfile ‹_›
  · rename_i extension hextension
    cases howner : l.projects.resolve change.path with
    | none => exact .waiting hkept hfile hextension (by simp [howner])
    | some q =>
        dsimp only
        split
        · exact .due hkept hfile hextension howner ‹_›
        · rename_i hslow
          refine .waiting hkept hfile hextension fun r _ => ?_
          exact Bool.eq_false_iff.mpr hslow

theorem passed_handleOther (l : Loop) (disk : Disk) (now : Nat) (change : Change)
    {owner : Option WatchedProject} (howner : l.projects.resolve change.path = owner) :
    Passed l disk now change (l.handleOther disk now change owner).value := by
  subst howner
  unfold handleOther
  split
  · exact .ignored ‹_›
  rename_i hignored
  have hkept := Bool.eq_false_iff.mpr hignored
  split
  · split
    · exact .created hkept ‹_› ‹_›
    · exact .folder hkept ‹_› ‹_›
  · rename_i hfolder
    exact passed_handleFile now hkept (Bool.eq_false_iff.mpr hfolder)

theorem handled (l : Loop) (disk : Disk) (now : Nat) (change : Change) :
    Handled l disk now change (l.handle disk now change).value := by
  unfold handle
  split
  · exact .own ‹_›
  rename_i hforeign
  have hforeign := Bool.eq_false_iff.mpr hforeign
  split
  · rename_i hnone
    exact .passed hforeign (by simp [hnone]) (passed_handleOther l disk now change hnone)
  · rename_i r howner
    split
    · rename_i hfile
      exact .reloaded ⟨hforeign, howner, hfile⟩
    · rename_i hplain
      refine .passed hforeign (fun q hq => ?_) (passed_handleOther l disk now change howner)
      obtain rfl : r = q := Option.some.inj (howner.symm.trans hq)
      exact Bool.eq_false_iff.mpr hplain

theorem Passed.keeps (h : Passed l disk now change next) : Keeps l next := by
  cases h with
  | ignored | folder | noExtension => exact .refl l
  | created => exact keeps_subscribeNew _ _ _ _
  | due => exact ⟨fun _ h => h, List.prefix_append _ _, id⟩
  | waiting => exact ⟨Debouncer.paths_record _ _ _, List.prefix_refl _, id⟩

theorem handle_value (l : Loop) (disk : Disk) (now : Nat) (change : Change) :
    (∃ r, l.Reloads change.path r ∧
        (l.handle disk now change).value = (l.reloadFilter disk r).value) ∨
      (∀ r, ¬ l.Reloads change.path r) ∧ Keeps l (l.handle disk now change).value := by
  have h := l.handled disk now change
  generalize (l.handle disk now change).value = next at h ⊢
  cases h with
  | own hown => exact .inr ⟨fun r hr => by simp [hr.foreign] at hown, .refl l⟩
  | reloaded hr => exact .inl ⟨_, hr, rfl⟩
  | passed _ hplain hpassed =>
      refine .inr ⟨fun r hr => ?_, hpassed.keeps⟩
      cases (hplain r hr.owner).symm.trans hr.ignoreFile

end

/-- The rescans that a sweep makes due. -/
def swept (l : Loop) (now : Nat) : List (String × Path) :=
  dueProjects l.projects [] (l.debouncer.ready now)

theorem spawnAll_value (due : List (String × Path)) (l : Loop) :
    due.foldl (fun l x => (l.spawn x.1 x.2).value) l = { l with rescans := l.rescans ++ due } := by
  induction due generalizing l with
  | nil => simp
  | cons x due ih =>
      rw [List.foldl_cons, ih]
      simp [spawn]

theorem sweep_value (l : Loop) (now : Nat) : (l.sweep now).value =
    { l with debouncer := (l.debouncer.dropReady now).dropMatching
               (belongsTo l.projects ((l.swept now).map Prod.fst)),
             rescans := l.rescans ++ l.swept now } := by
  have hdue : ((l.debouncer.ready now).foldlM (dueOf l.projects) []).value = l.swept now := by
    rw [Noted.value_foldlM]
    rfl
  rw [sweep, Noted.value_bind, hdue, Noted.value_foldlM]
  exact spawnAll_value _ _

/-! ## Names stay different -/

theorem after_track (l : Loop) (disk : Disk) (name : String) (root : Path) :
    ∃ source filter folders, l.after (.track disk name root) =
      { l with source, projects := l.projects.insert ⟨name, root, filter, folders⟩,
               rescans := l.rescans ++ [(name, root)] } := by
  obtain ⟨source, filter, folders, hl⟩ := track_value l disk name root
  refine ⟨source, filter, folders, ?_⟩
  rw [after, hl]
  rfl

theorem distinct_track {l : Loop} (h : l.projects.Distinct) (disk : Disk) (name : String)
    (root : Path) : (l.track disk name root).value.2.projects.Distinct := by
  obtain ⟨source, filter, folders, hl⟩ := track_value l disk name root
  rw [hl]
  exact h.insert _

/-- What is kept whenever a project is tracked is kept when many are. -/
theorem trackAll_induction {P : Loop → Prop} (disk : Disk)
    (htrack : ∀ l name root, P l → P (l.track disk name root).value.2)
    (tracked : List (String × Path)) {l : Loop} (h : P l) :
    P (Watcher.trackAll disk tracked l).value := by
  induction tracked generalizing l with
  | nil => exact h
  | cons x tracked ih =>
      obtain ⟨name, root⟩ := x
      rw [Watcher.trackAll, Noted.value_bind]
      exact ih (htrack l name root h)

theorem distinct_trackAll (disk : Disk) (tracked : List (String × Path)) {l : Loop}
    (h : l.projects.Distinct) : (Watcher.trackAll disk tracked l).value.projects.Distinct :=
  trackAll_induction (P := fun l => l.projects.Distinct) disk
    (fun _ name root h => distinct_track h disk name root) tracked h

/-- A watcher that starts has tracked the projects with the loop it was built with. -/
theorem start_value {first l : Loop} {disk : Disk}
    {tracked : Except RegistryError (List (String × Path))}
    (h : ((Watcher.idle first).start disk tracked).value.2 = .watching l) :
    ∃ projects source, l = (Watcher.trackAll disk projects { first with source }).value := by
  cases tracked with
  | error e => cases h
  | ok projects =>
      simp only [Watcher.start] at h
      split at h
      · cases h
      · rename_i source _
        cases h
        exact ⟨projects, source, rfl⟩

theorem distinct_after {l : Loop} (h : l.projects.Distinct) (e : Event) :
    (l.after e).projects.Distinct := by
  cases e with
  | message disk now message =>
      cases message with
      | error e => exact h
      | ok change =>
          rcases handle_value l disk now change with ⟨r, -, hr⟩ | ⟨-, hkeeps⟩
          · obtain ⟨source, filter, folders, hl⟩ := reloadFilter_value l disk r
            rw [after, receive, hr, hl]
            exact h.modify fun _ => rfl
          · exact hkeeps.distinct h
  | track disk name root =>
      obtain ⟨source, filter, folders, hl⟩ := after_track l disk name root
      rw [hl]
      exact h.insert _
  | untrack name =>
      rw [after]
      rcases untrack_value l name with ⟨-, hl⟩ | ⟨r, source, -, hl⟩
      · rwa [hl]
      · rw [hl]
        exact h.remove name
  | sweep now =>
      rw [after, sweep_value]
      exact h

theorem Reachable.distinct {l : Loop} (h : Reachable l) : l.projects.Distinct := by
  induction h with
  | start engine source first disk options tracked hstart =>
      obtain ⟨projects, source, rfl⟩ := start_value hstart
      exact distinct_trackAll disk projects WatchSet.distinct_empty
  | react e _ ih => exact distinct_after ih e
  | launch count _ ih => exact ih

/-! ## Loops in company -/

theorem Reachable.launchAll {l : Loop} (h : Reachable l) : Reachable { l with rescans := [] } := by
  have hdrop := h.launch l.rescans.length
  rwa [List.drop_length] at hdrop

/-- The loop of a watcher that is `first` before its start is reachable while it watches. -/
def Sound (first : Loop) : Watcher → Prop
  | .idle loop => loop = first
  | .watching loop => Reachable loop
  | _ => True

variable {engine : Engine} {source : Source} {disk : Disk} {options : Watcher.Options}

/-- The loop that a watcher is built with. -/
def built (engine : Engine) (source : Source) (disk : Disk) (options : Watcher.Options) : Loop :=
  ⟨engine, source, .empty, .empty (options.debounce.getD engine.settings.watcher.debounce),
    if options.fastPath.getD engine.settings.watcher.fastPath then
      engine.readers.builtInExtensions else [],
    Watcher.ownPaths engine disk options.ignored, []⟩

theorem watcher_follow (c : Company) (w : Watcher) :
    (c.follow w).watcher = Company.unburdened w :=
  List.foldlRecOn (motive := fun d : Company => d.watcher = Company.unburdened w) w.rescans
    Company.launch rfl fun _ h _ _ => h

/-- What a watcher can become when it is told something or takes a message. -/
inductive Acts : Watcher → Watcher → Prop where
  | nothing (w : Watcher) : Acts w w
  | starts {l : Loop} {source : Source} (disk : Disk) (tracked : List (String × Path)) :
      l.source.takeStream? = some source →
      Acts (.idle l) (.watching (Watcher.trackAll disk tracked { l with source }).value)
  | spends (l : Loop) : Acts (.idle l) (.spent l.source)
  | reacts (l : Loop) (e : Event) : Acts (.watching l) (.watching (l.after e))
  | closes (l : Loop) : Acts (.watching l) (.draining { l with source := l.source.close })
  | retires (l : Loop) : Acts (.idle l) (.stopped l.source.close)
  | expires (source : Source) : Acts (.spent source) (.stopped source)

theorem acts_start (w : Watcher) (disk : Disk)
    (tracked : Except RegistryError (List (String × Path))) :
    Acts w (w.start disk tracked).value.2 := by
  cases w with
  | idle l =>
      cases tracked with
      | error e => exact .nothing _
      | ok projects =>
          simp only [Watcher.start]
          split
          · exact .spends l
          · rename_i source hsource
            exact .starts disk projects hsource
  | _ => cases tracked <;> exact .nothing _

theorem acts_track (w : Watcher) (disk : Disk) (name : String) (root : Path) :
    Acts w (w.track disk name root).value.2 := by
  cases w with
  | watching l => exact .reacts l (.track disk name root)
  | _ => exact .nothing _

theorem acts_untrack (w : Watcher) (name : String) : Acts w (w.untrack name).value.2 := by
  cases w with
  | watching l => exact .reacts l (.untrack name)
  | _ => exact .nothing _

theorem acts_receive (w : Watcher) (disk : Disk) (now : Nat) (message : Message) :
    Acts w (w.receive disk now message).value := by
  cases w with
  | watching l => exact .reacts l (.message disk now message)
  | _ => exact .nothing _

theorem acts_sweep (w : Watcher) (now : Nat) : Acts w (w.sweep now).value := by
  cases w with
  | watching l => exact .reacts l (.sweep now)
  | _ => exact .nothing _

theorem close_watching (l : Loop) :
    (Watcher.watching l).close.value = .draining { l with source := l.source.close } := by
  simp only [Watcher.close, Noted.value_bind]
  split <;> rfl

theorem acts_close (w : Watcher) : Acts w w.close.value := by
  cases w with
  | idle l => exact .retires l
  | spent source => exact .expires source
  | watching l =>
      rw [close_watching]
      exact .closes l
  | draining l => exact .nothing _
  | stopped source => exact .nothing _

/-- A move leaves the watcher as it is, or makes it act and begins its rescans, or makes one that
is being stopped come to its end. -/
theorem watcher_move {c d : Company} {m : Company.Move} (hm : c.move? m = some d) :
    d.watcher = c.watcher ∨ (∃ w, Acts c.watcher w ∧ d.watcher = Company.unburdened w) ∨
      ∃ loop, c.watcher = .draining loop ∧ d.watcher = (Watcher.draining loop).finish.value := by
  have hact : ∀ w, Acts c.watcher w → some (c.follow w) = some d →
      ∃ w, Acts c.watcher w ∧ d.watcher = Company.unburdened w := by
    intro w hw hd
    cases hd
    exact ⟨w, hw, watcher_follow c w⟩
  cases m with
  | start tracked => exact .inr (.inl (hact _ (acts_start _ c.shared.disk tracked) hm))
  | track name root => exact .inr (.inl (hact _ (acts_track _ c.shared.disk name root) hm))
  | untrack name => exact .inr (.inl (hact _ (acts_untrack _ name) hm))
  | receive now message => exact .inr (.inl (hact _ (acts_receive _ c.shared.disk now message) hm))
  | sweep now => exact .inr (.inl (hact _ (acts_sweep _ now) hm))
  | close => exact .inr (.inl (hact _ (acts_close _) hm))
  | ask call =>
      cases hm
      exact .inl rfl
  | advance who obstacle =>
      obtain ⟨shared, -, rfl⟩ := Option.map_eq_some_iff.mp hm
      exact .inl rfl
  | edit disk =>
      cases hm
      exact .inl rfl
  | join who =>
      simp only [Company.move?, Company.join?] at hm
      split at hm <;> cases hm
      exact .inl rfl
  | finish =>
      simp only [Company.move?, Company.finish?] at hm
      split at hm
      · split at hm <;> cases hm
        rename_i loop hw _
        exact .inr (.inr ⟨loop, hw, by rw [hw]⟩)
      · cases hm

theorem sound_unburdened {w : Watcher} (h : Sound (built engine source disk options) w) :
    Sound (built engine source disk options) (Company.unburdened w) := by
  cases w with
  | idle loop =>
      obtain rfl : loop = _ := h
      rfl
  | watching loop => exact Reachable.launchAll h
  | spent source => trivial
  | draining loop => trivial
  | stopped source => trivial

theorem sound_acts {w next : Watcher} (h : Sound (built engine source disk options) w)
    (hacts : Acts w next) : Sound (built engine source disk options) next := by
  cases hacts with
  | nothing => exact h
  | @starts l taken now tracked hsource =>
      obtain rfl : l = _ := h
      apply Reachable.start engine source disk now options (.ok tracked)
      change ((Watcher.idle (built engine source disk options)).start now _).value.2 = _
      simp only [Watcher.start, hsource]
      rfl
  | reacts l e => exact Reachable.react e h
  | _ => trivial

theorem sound_move {c d : Company} (h : Sound (built engine source disk options) c.watcher)
    (m : Company.Move) (hm : c.move? m = some d) :
    Sound (built engine source disk options) d.watcher := by
  rcases watcher_move hm with hkept | ⟨w, hacts, hw⟩ | ⟨loop, -, hw⟩
  · rwa [hkept]
  · rw [hw]
    exact sound_unburdened (sound_acts h hacts)
  · rw [hw, Watcher.finish]
    split <;> trivial

/-- The loop of a watcher is reachable while it watches, whatever its rescans and others do. -/
theorem reachable_of_company {shared : SharedEngine} {c : Company} {l : Loop}
    (h : Company.Reachable (.make (Watcher.ofEngine engine source disk options).value shared) c)
    (hl : c.watcher = .watching l) : Reachable l := by
  have hsound : Sound (built engine source disk options) c.watcher := by
    clear hl
    induction h with
    | start => rfl
    | move m _ hm ih => exact sound_move ih m hm
  rwa [hl] at hsound

end Loop

end TodoIndex
