import TodoIndex.Proofs.Watch.Pending
import TodoIndex.Proofs.Watch.Turns

/-! # Subscribed directories that no project lists

With a source that accepts every call, a turn leaves a directory subscribed that no project lists
only in two ways: it covers a directory created outside all projects, or it replaces a project by
another of its name.  All other subscribed directories are listed.
-/

namespace TodoIndex

open Text (bytesOf)

namespace WatchSet

variable {s : WatchSet}

/-- Some project lists a directory. -/
def Lists (s : WatchSet) (folder : Path) : Prop :=
  ∃ p ∈ s.projects, p.lists folder = true

theorem Distinct.foldersOf (h : s.Distinct) {p : WatchedProject} (hp : p ∈ s.projects) :
    s.foldersOf p.name = p.folders := by
  rw [WatchSet.foldersOf, h.get?_of_mem hp]

theorem lists_modify_same {change : WatchedProject → WatchedProject} {p : WatchedProject}
    {folder : Path} (hp : p ∈ s.projects) (h : (change p).lists folder = true) :
    (s.modify p.name change).Lists folder :=
  ⟨_, mem_modify.mpr ⟨p, hp, rfl⟩, by rwa [if_pos rfl]⟩

theorem lists_modify_other {name : String} {change : WatchedProject → WatchedProject}
    {p : WatchedProject} {folder : Path} (hp : p ∈ s.projects) (hname : p.name ≠ name)
    (h : p.lists folder = true) : (s.modify name change).Lists folder :=
  ⟨_, mem_modify.mpr ⟨p, hp, rfl⟩, by rwa [if_neg hname]⟩

end WatchSet

namespace Loop

open WatchedProject (lists_iff lists_of_same lists_congr)

variable {source source' : Source} {projects projects' : WatchSet} {strays replaced : List Path}

/-! ## One turn -/

theorem Turn.refusal (h : Turn source projects source' projects' strays replaced) :
    source'.refusal = source.refusal := by
  cases h with
  | still => rfl
  | tracked => exact (subscribeAll_value _ _).2
  | untracked => exact refusal_unsubscribeAll _ _ _ _
  | reloaded =>
      rw [realigned, (subscribeAll_value _ _).2]
      exact refusal_unsubscribeAll _ _ _ _
  | grown => exact (subscribeAll_value _ _).2
  | outside => exact (subscribeAll_value _ _).2

/-- What a project listed and wants no more is dropped, unless another project lists it. -/
theorem lists_of_kept (hw : source.Willing) {name : String} {folders : List Path} {f folder : Path}
    (h : (unsubscribeAll projects name folders source).value.hears folder = true)
    (hf : f ∈ folders) (hsame : f.same folder = true) :
    ∃ p ∈ projects.projects, p.name ≠ name ∧ p.lists folder = true := by
  have helsewhere := (hears_of_unsubscribeAll hw h).2 f hf hsame
  obtain ⟨p, hp, hname, hlists⟩ := WatchSet.isSubscribedElsewhere_iff.mp helsewhere
  exact ⟨p, hp, hname, (lists_congr hsame).symm.trans hlists⟩

/-- What was subscribed for one project only is listed by it still, or dropped. -/
theorem lists_realigned (hw : source.Willing) (hnames : projects.Distinct) {r : WatchedProject}
    (hr : r ∈ projects.projects) (filter : Ignore.Filter) (wanted : List Path) {folder : Path}
    (hhears : (realigned projects r wanted source).2.hears folder = true)
    (hbefore : source.hears folder = true → projects.Lists folder) :
    (realign projects r filter wanted source).Lists folder := by
  have hown {f : Path} (hf : f ∈ among (distinct r.folders) wanted ++
      (realigned projects r wanted source).1) (hsame : f.same folder = true) :
      (realign projects r filter wanted source).Lists folder :=
    WatchSet.lists_modify_same hr (lists_of_same (Debouncer.mem_sortPaths.mpr hf) hsame)
  rcases hears_of_subscribeAll hhears with hkept | ⟨f, hf, hsame⟩
  · obtain ⟨q, hq, hlists⟩ := hbefore (hears_of_unsubscribeAll hw hkept).1
    by_cases hname : q.name = r.name
    · obtain rfl := hnames.eq_of_name hq hr hname
      obtain ⟨g, hg, hgsame⟩ := lists_iff.mp hlists
      obtain ⟨f, hf, hfsame⟩ := exists_distinct hg
      have hsame := Path.same_trans hfsame hgsame
      by_cases hwanted : ∃ other ∈ wanted, other.same f = true
      · exact hown (List.mem_append_left _ (mem_among.mpr ⟨hf, hwanted⟩)) hsame
      · have hdropped : f ∈ without (distinct q.folders) wanted :=
          mem_without.mpr ⟨hf, fun other hother =>
            Bool.eq_false_iff.mpr fun h => hwanted ⟨other, hother, h⟩⟩
        obtain ⟨p, hp, hne, hplists⟩ := lists_of_kept hw hkept hdropped hsame
        exact WatchSet.lists_modify_other hp hne hplists
    · exact WatchSet.lists_modify_other hq hname hlists
  · exact hown (List.mem_append_right _ hf) hsame

/-- After a turn every subscribed directory is listed, unless it was subscribed before and not
listed then, or the turn strays to it or takes it from a project that it replaces. -/
theorem Turn.listed (h : Turn source projects source' projects' strays replaced)
    (hw : source.Willing) (hnames : projects.Distinct) {folder : Path}
    (hhears : source'.hears folder = true)
    (hbefore : source.hears folder = true → projects.Lists folder)
    (hothers : ∀ f ∈ strays ++ replaced, f.same folder = false) : projects'.Lists folder := by
  cases h with
  | still => exact hbefore hhears
  | @tracked p wanted hp =>
      rcases hears_of_subscribeAll hhears with hold | ⟨f, hf, hsame⟩
      · obtain ⟨q, hq, hlists⟩ := hbefore hold
        by_cases hname : q.name = p.name
        · obtain ⟨f, hf, hsame⟩ := lists_iff.mp hlists
          rw [← hname, hnames.foldersOf hq, List.nil_append] at hothers
          rw [hothers f hf] at hsame
          cases hsame
        · exact ⟨q, WatchSet.mem_insert.mpr (.inl (WatchSet.mem_remove_of_ne hq hname)), hlists⟩
      · exact ⟨p, WatchSet.mem_insert.mpr (.inr rfl), lists_of_same (hp ▸ hf) hsame⟩
  | @untracked name r hr =>
      obtain ⟨q, hq, hlists⟩ := hbefore (hears_of_unsubscribeAll hw hhears).1
      by_cases hname : q.name = name
      · have hqr : q = r := hnames.eq_of_name hq (WatchSet.mem_of_get? hr)
          (hname.trans (WatchSet.name_of_get? hr).symm)
        obtain ⟨f, hf, hsame⟩ := lists_iff.mp hlists
        obtain ⟨p, hp, -, hplists⟩ := lists_of_kept hw hhears (hqr ▸ hf) hsame
        exact ⟨p, hp, hplists⟩
      · exact ⟨q, WatchSet.mem_remove_of_ne hq hname, hlists⟩
  | reloaded filter wanted hr =>
      exact lists_realigned hw hnames hr filter wanted hhears hbefore
  | @grown r found hr =>
      rcases hears_of_subscribeAll hhears with hold | ⟨f, hf, hsame⟩
      · obtain ⟨q, hq, hlists⟩ := hbefore hold
        by_cases hname : q.name = r.name
        · obtain rfl := hnames.eq_of_name hq hr hname
          obtain ⟨f, hf, hsame⟩ := lists_iff.mp hlists
          exact WatchSet.lists_modify_same hq (lists_of_same (List.mem_append_left _ hf) hsame)
        · exact WatchSet.lists_modify_other hq hname hlists
      · exact WatchSet.lists_modify_same hr (lists_of_same (List.mem_append_right _ hf) hsame)
  | outside found =>
      rcases hears_of_subscribeAll hhears with hold | ⟨f, hf, hsame⟩
      · exact hbefore hold
      · rw [subscribeAll_of_accepts hw.accepts] at hf
        rw [hothers f (List.mem_append_left _ hf)] at hsame
        cases hsame

/-! ## Runs -/

/-- The directories that were subscribed for projects that are replaced while others are tracked. -/
def replacedAll (disk : Disk) : List (String × Path) → Loop → List Path
  | [], _ => []
  | (name, root) :: rest, l =>
      l.projects.foldersOf name ++ replacedAll disk rest (l.track disk name root).value.2

/-- The loop of a watcher that starts with a source which accepts every call. -/
def welcome (engine : Engine) (first : Disk) (options : Watcher.Options) : Loop :=
  { built engine (.make fun _ _ => none) first options with
    source := { Source.make fun _ _ => none with taken := true } }

/-- The loops that such a watcher can come to, with the directories that it subscribed for no
project on the way and those that were subscribed for a project when it was replaced, as far as
they have not been dropped since. -/
inductive Course : Loop → (strays replaced : List Path) → Prop where
  | start (engine : Engine) (first disk : Disk) (options : Watcher.Options)
      (tracked : List (String × Path)) :
      Course (Watcher.trackAll disk tracked (welcome engine first options)).value []
        (replacedAll disk tracked (welcome engine first options))
  | react {l : Loop} {strays replaced : List Path} (e : Event) :
      Course l strays replaced →
      Course (l.after e) ((strays ++ l.strays e).filter (l.after e).source.hears)
        ((replaced ++ l.replaced e).filter (l.after e).source.hears)
  | launch {l : Loop} {strays replaced : List Path} (count : Nat) :
      Course l strays replaced → Course { l with rescans := l.rescans.drop count } strays replaced

/-- One event more, with what has strayed and was replaced until then. -/
theorem Course.next {l : Loop} (h : Course l strays replaced) (e : Event)
    {strays' replaced' : List Path}
    (hstrays : (strays ++ l.strays e).filter (l.after e).source.hears = strays')
    (hreplaced : (replaced ++ l.replaced e).filter (l.after e).source.hears = replaced') :
    Course (l.after e) strays' replaced' :=
  hstrays ▸ hreplaced ▸ .react e h

/-- A course is one of the ways to a reachable loop. -/
theorem Course.reachable {l : Loop} (h : Course l strays replaced) : Reachable l := by
  induction h with
  | start engine first disk options tracked =>
      exact .start engine (.make fun _ _ => none) first disk options (.ok tracked) rfl
  | react e _ ih => exact .react e ih
  | launch count _ ih => exact .launch count ih

/-- All subscribed directories are listed, apart from some others; the source is willing. -/
structure Accounted (l : Loop) (others : List Path) : Prop where
  willing : l.source.Willing
  distinct : l.projects.Distinct
  listed {folder : Path} : l.source.hears folder = true →
    (∀ f ∈ others, f.same folder = false) → l.projects.Lists folder

theorem Accounted.turn {l next : Loop} {others more : List Path} (h : Accounted l others)
    (hturn : Turn l.source l.projects next.source next.projects strays replaced)
    (hnames : next.projects.Distinct)
    (hmore : ∀ f ∈ others ++ (strays ++ replaced), next.source.hears f = true → f ∈ more) :
    Accounted next more where
  willing := by
    intro call folder
    rw [hturn.refusal]
    exact h.willing call folder
  distinct := hnames
  listed := by
    intro folder hhears hothers
    have hfar : ∀ f ∈ others ++ (strays ++ replaced), f.same folder = false := by
      intro f hf
      rw [Bool.eq_false_iff]
      intro hsame
      rw [hothers f (hmore f hf ((Source.hears_congr hsame).trans hhears))] at hsame
      cases hsame
    refine hturn.listed h.willing h.distinct hhears (fun hold => h.listed hold fun f hf => ?_)
      fun f hf => hfar f (List.mem_append_right _ hf)
    exact hfar f (List.mem_append_left _ hf)

theorem accounted_trackAll (disk : Disk) (tracked : List (String × Path)) {l : Loop}
    {others : List Path} (h : Accounted l others) :
    Accounted (Watcher.trackAll disk tracked l).value (others ++ replacedAll disk tracked l) := by
  induction tracked generalizing l others with
  | nil => simpa [replacedAll, Watcher.trackAll] using h
  | cons x tracked ih =>
      obtain ⟨name, root⟩ := x
      rw [Watcher.trackAll, Noted.value_bind, replacedAll, ← List.append_assoc]
      exact ih (h.turn (turn_track l disk name root) (distinct_track h.distinct disk name root)
        fun f hf _ => hf)

theorem Course.accounted {l : Loop} (h : Course l strays replaced) :
    Accounted l (strays ++ replaced) := by
  induction h with
  | start engine first disk options tracked =>
      refine accounted_trackAll disk tracked ⟨fun _ _ => rfl, WatchSet.distinct_empty, ?_⟩
      intro folder hhears
      cases hhears
  | react e h ih =>
      refine ih.turn (turn_after _ e) (distinct_after ih.distinct e) fun f hf hhears => ?_
      simp only [List.mem_append, List.mem_filter] at hf ⊢
      tauto
  | launch count _ ih => exact ⟨ih.willing, ih.distinct, ih.listed⟩

/-- **No directory is subscribed for nothing.**  With a source that accepts every call, whatever
the watcher reacts to, a subscribed directory is listed for a project, unless it was subscribed
for a directory created outside all projects, or for a project that was replaced, and has not been
dropped since. -/
theorem Course.listed_or_strayed {l : Loop} (h : Course l strays replaced) {folder : Path}
    (hfolder : folder ∈ l.source.subscribed) :
    (∃ p ∈ l.projects.projects, p.lists folder = true) ∨
      (∃ f ∈ strays, f.same folder = true) ∨ ∃ f ∈ replaced, f.same folder = true := by
  by_cases hothers : ∃ f ∈ strays ++ replaced, f.same folder = true
  · obtain ⟨f, hf, hsame⟩ := hothers
    rcases List.mem_append.mp hf with hf | hf
    · exact .inr (.inl ⟨f, hf, hsame⟩)
    · exact .inr (.inr ⟨f, hf, hsame⟩)
  · refine .inl (h.accounted.listed (Source.hears_iff.mpr ⟨folder, hfolder, Path.same_self _⟩) ?_)
    exact fun f hf => Bool.eq_false_iff.mpr fun hsame => hothers ⟨f, hf, hsame⟩

/-! ## Directories that are subscribed for nothing -/

/-- Two empty directories. -/
def townDisk : Disk :=
  ⟨.folder (bytesOf "v") .empty (.folder (bytesOf "w") .empty .empty), []⟩

/-- The same with a new directory beside them, and one in the second of them. -/
def grownDisk : Disk :=
  ⟨.folder (bytesOf "u") .empty (.folder (bytesOf "v") .empty
    (.folder (bytesOf "w") (.folder (bytesOf "new") .empty .empty) .empty)), []⟩

/-- A watcher that tracks the second directory. -/
def townStart : Loop :=
  (Watcher.trackAll townDisk [("p", .ofString "w")]
    (welcome nestedEngine townDisk ⟨none, none, none, []⟩)).value

theorem course_townStart : Course townStart [] [] :=
  .start nestedEngine townDisk townDisk ⟨none, none, none, []⟩ [("p", .ofString "w")]

/-- It hears of both new directories, and then tracks the first directory under the same name. -/
def resettled : Loop :=
  townStart
    |>.after (.message grownDisk 0 (.ok ⟨.ofString "u", .created⟩))
    |>.after (.message grownDisk 0 (.ok ⟨.ofString "w/new", .created⟩))
    |>.after (.track grownDisk "p" (.ofString "v"))

theorem course_resettled :
    Course resettled [.ofString "u"] [.ofString "w", .ofString "w/new"] := by
  have hu : Course _ [.ofString "u"] [] :=
    course_townStart.next (.message grownDisk 0 (.ok ⟨.ofString "u", .created⟩))
      (by decide +kernel) (by decide +kernel)
  have hnew : Course _ [.ofString "u"] [] :=
    hu.next (.message grownDisk 0 (.ok ⟨.ofString "w/new", .created⟩))
      (by decide +kernel) (by decide +kernel)
  exact hnew.next (.track grownDisk "p" (.ofString "v")) (by decide +kernel) (by decide +kernel)

/-- The new directory beside the projects has strayed, and two are left from the project that was
replaced; the one that is tracked now is listed. -/
theorem listed_or_strayed_resettled :
    Course resettled [.ofString "u"] [.ofString "w", .ofString "w/new"] ∧
      .ofString "v" ∈ resettled.source.subscribed ∧
        ((∃ p ∈ resettled.projects.projects, p.lists (.ofString "v") = true) ∨
          (∃ f ∈ [Path.ofString "u"], f.same (.ofString "v") = true) ∨
            ∃ f ∈ [Path.ofString "w", .ofString "w/new"], f.same (.ofString "v") = true) := by
  have hmem : Path.ofString "v" ∈ resettled.source.subscribed := by decide +kernel
  exact ⟨course_resettled, hmem, course_resettled.listed_or_strayed hmem⟩

/-- It tracks the second directory no more, and then hears of the new one in it. -/
def strayed : Loop :=
  townStart
    |>.after (.untrack "p")
    |>.after (.message grownDisk 0 (.ok ⟨.ofString "w/new", .created⟩))

theorem course_strayed : Course strayed [.ofString "w/new"] [] := by
  have hleft : Course _ [] [] :=
    course_townStart.next (.untrack "p") (by decide +kernel) (by decide +kernel)
  exact hleft.next (.message grownDisk 0 (.ok ⟨.ofString "w/new", .created⟩))
    (by decide +kernel) (by decide +kernel)

/-- Without a project there is a directory subscribed, and so is the old directory of a project
that was tracked again elsewhere. -/
theorem subscribed_for_nothing :
    (Course strayed [.ofString "w/new"] [] ∧ .ofString "w/new" ∈ strayed.source.subscribed ∧
        ¬ ∃ p ∈ strayed.projects.projects, p.lists (.ofString "w/new") = true) ∧
      Course resettled [.ofString "u"] [.ofString "w", .ofString "w/new"] ∧
        .ofString "w" ∈ resettled.source.subscribed ∧
          ¬ ∃ p ∈ resettled.projects.projects, p.lists (.ofString "w") = true :=
  ⟨⟨course_strayed, by decide +kernel, by decide +kernel⟩, course_resettled, by decide +kernel,
    by decide +kernel⟩

end Loop

end TodoIndex
