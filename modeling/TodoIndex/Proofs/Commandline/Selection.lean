import TodoIndex.Commandline.Run
import TodoIndex.Proofs.Scan.Batches
import TodoIndex.Proofs.Settings.Layering

/-! # Scanning the active project

The active project is scanned under the first name whose root is the same, and under its own name
if it is asked for by that name.  Whether a scan succeeds does not depend on the name; if it does,
its line tells the name, so both ways come to the same only under the same name.
-/

namespace TodoIndex

namespace Engine

variable {e : Engine} {disk : Disk} {root : Path} {project : String}

/-! ## One root under several names -/

/-- What is gathered below a root does not depend on the name of the project. -/
theorem gather_project (e : Engine) (disk : Disk) (root : Path) (project other : String) :
    (e.gather disk root project).value = (e.gather disk root other).value := by
  unfold gather
  split
  · rfl
  · simp only [Noted.value_bind, Noted.value_map, Noted.value_foldlM]
    rw [foldl_gatherFile, foldl_gatherFile]

/-- A scan fails under all names alike, or succeeds under all of them with the same count. -/
theorem scanAs_under_names (e : Engine) (disk : Disk) (root : Path) :
    (∃ failure last, ∀ project,
      (e.scanAs .none disk root project).value = (.error failure, last)) ∨
    ∃ g old, ∀ project, ∃ saved,
      (e.scanAs .none disk root project).value = (.ok (conclude root project g old).1, saved) := by
  have hsame := fun project => e.gather_project disk root project ""
  cases hgather : (e.gather disk root "").value with
  | error failure =>
      exact .inl ⟨failure, disk, fun project =>
        scanAs_of_gather_error ((hsame project).trans hgather)⟩
  | ok g =>
      cases hload : (e.loadStore disk).value with
      | error failure =>
          exact .inl ⟨failure, disk, fun project =>
            scanAs_of_load_error ((hsame project).trans hgather) hload⟩
      | ok old =>
          rcases Store.admits_or_refuses disk e.storePath with
            hadmits | ⟨cause, last, hrefuses⟩
          · refine .inr ⟨g, old, fun project => ?_⟩
            obtain ⟨saved, hsaved⟩ := hadmits (conclude root project g old).2
            exact ⟨saved, scanAs_of_save ((hsame project).trans hgather) hload hsaved⟩
          · exact .inl ⟨.store cause, last, fun project =>
              scanAs_of_refuses ((hsame project).trans hgather) hload hrefuses⟩

end Engine

namespace Commandline

/-! ## Lines of reports -/

/-- What stands before the last mark, and what stands behind it. -/
theorem eq_of_last_mark {mark : Char} {a b s t : List Char} (ha : mark ∉ a) (hb : mark ∉ b)
    (h : s ++ mark :: a = t ++ mark :: b) : s = t ∧ a = b := by
  have hbehind : ∀ {a s : List Char}, mark ∉ a →
      ((s ++ mark :: a).reverse.takeWhile (· != mark)).reverse = a := by
    intro a s ha
    have hother : ∀ c ∈ a.reverse, (c != mark) = true := by
      intro c hc
      have hne : c ≠ mark := fun heq => ha (by simpa [heq] using hc)
      simpa using hne
    rw [List.reverse_append, List.reverse_cons, List.append_assoc,
      List.takeWhile_append_of_pos hother]
    simp
  have hab : a = b := by rw [← hbehind ha, h, hbehind hb]
  subst hab
  exact ⟨List.append_cancel_right h, rfl⟩

theorem mark_not_mem_digits (n : Nat) : '(' ∉ Nat.toDigits 10 n := by
  intro hmem
  have hdigit := Nat.isDigit_of_mem_toDigits (by omega) (by omega) hmem
  revert hdigit
  decide

/-- Reports that count the same files and remarks have the same line only if they name the same
project. -/
theorem project_of_reportLine {r s : Report} (h : reportLine r = reportLine s)
    (hremarks : r.remarks = s.remarks) (hparsed : r.parsed = s.parsed)
    (hfailures : r.failures = s.failures) : r.project = s.project := by
  have hlist := congrArg String.toList h
  unfold reportLine at hlist
  simp only [hremarks, hparsed, hfailures, String.toList_append] at hlist
  have hbegin := List.append_cancel_right (List.append_cancel_right (List.append_cancel_right
    (List.append_cancel_right hlist)))
  -- The number of resolved remarks stands behind the last bracket, and the project before it.
  have hbracket : (toString " annotations (").toList = " annotations ".toList ++ ['('] := by
    simp [toString]
  have hdigits : ∀ n : Nat, (toString n).toList = Nat.toDigits 10 n := fun n => by
    simp [toString]
  rw [hbracket, hdigits r.resolved, hdigits s.resolved] at hbegin
  simp only [← List.append_assoc] at hbegin
  simp only [List.append_assoc _ ['('], List.singleton_append] at hbegin
  obtain ⟨hproject, -⟩ := eq_of_last_mark (mark_not_mem_digits _) (mark_not_mem_digits _) hbegin
  have hname := List.append_cancel_right (List.append_cancel_right (List.append_cancel_right
    hproject))
  exact String.toList_injective hname

/-! ## The project that is chosen -/

variable {run : Helper.Runner} {environment : Environment} {disk : Disk} {edits : List Edit}
  {document : Option Path} {settings : Settings} {engine : Engine}
  {projects : Registry.ProjectsDocument} {path root : Path} {first name : String}

/-- The first name, in the order of the names, under which a root is tracked. -/
structure FirstName (projects : Registry.ProjectsDocument) (root : Path) (first : String) :
    Prop where
  tracks : ∃ other, projects.projects.get? first = some other ∧ other.same root = true
  least : ∀ name other, projects.projects.get? name = some other → other.same root = true →
    first ≤ name

theorem mem_tracked_iff {p : String × Path} :
    p ∈ projects.tracked ↔ projects.projects.get? p.1 = some p.2 := by
  rw [Registry.ProjectsDocument.tracked, ← OrderedMap.lookup_sorted]
  constructor
  · exact OrderedMap.lookup_eq_some_of_mem projects.projects.nodup_sorted
  · exact OrderedMap.mem_of_lookup

theorem FirstName.unique (hfirst : FirstName projects root first)
    (hname : FirstName projects root name) : first = name := by
  obtain ⟨other, hget, hsame⟩ := hfirst.tracks
  obtain ⟨another, hanother, hequal⟩ := hname.tracks
  exact String.le_antisymm (hfirst.least name another hanother hequal)
    (hname.least first other hget hsame)

/-- The active project is taken under the first name of its root. -/
theorem activeProject_eq (path : Path) (hroot : projects.activeRoot? = some root) :
    ∃ first, FirstName projects root first ∧
      activeProject path projects = .ok (first, root) := by
  have hmem : (projects.active, root) ∈ projects.tracked.filter fun p => p.2.same root :=
    List.mem_filter.mpr ⟨mem_tracked_iff.mpr hroot, Path.same_self root⟩
  have hordered : (projects.tracked.filter fun p => p.2.same root).Pairwise
      fun p q => p.1 < q.1 :=
    (List.pairwise_map.mp projects.projects.pairwise_sorted).filter _
  unfold activeProject
  rw [hroot]
  cases hall : projects.tracked.filter fun p => p.2.same root with
  | nil =>
      rw [hall] at hmem
      cases hmem
  | cons p rest =>
      rw [hall] at hordered
      have hp : p ∈ projects.tracked.filter fun p => p.2.same root := by
        rw [hall]
        exact List.mem_cons_self
      obtain ⟨htracked, hequal⟩ := List.mem_filter.mp hp
      refine ⟨p.1, ⟨⟨p.2, mem_tracked_iff.mp htracked, hequal⟩, fun name other hget hsame => ?_⟩,
        by simp [hall]⟩
      have hname : (name, other) ∈ p :: rest := by
        rw [← hall]
        exact List.mem_filter.mpr ⟨mem_tracked_iff.mpr hget, hsame⟩
      rcases List.mem_cons.mp hname with rfl | hlater
      · exact String.le_refl _
      · exact String.not_lt.mp (String.lt_asymm ((List.pairwise_cons.mp hordered).1 _ hlater))

theorem trackedProject_eq (hroot : projects.activeRoot? = some root) :
    trackedProject path projects.active projects = .ok (projects.active, root) := by
  have hlookup : projects.tracked.lookup projects.active = some root :=
    (OrderedMap.lookup_sorted _ _).trans hroot
  rw [trackedProject, hlookup]

/-! ## Two ways to ask -/

/-- What a scan prints and leaves. -/
def ranOf : Except ScanError Report × Disk → Ran
  | (.ok report, last) => .done last [reportLine report]
  | (.error failure, last) => .failed last (.ofScan failure)

theorem scanOne_value (engine : Engine) (disk : Disk) (root : Path) (name : String) :
    (scanOne engine disk root name).value =
      ranOf (engine.scanAs .none disk root (Engine.nameOf root name)).value := by
  unfold scanOne Engine.runScan Engine.runScanUnder
  simp only [Noted.value_bind]
  cases (engine.scanAs .none disk root (Engine.nameOf root name)).value with
  | mk outcome last => cases outcome <;> rfl

/-- A request for a scan ends as the scan does. -/
theorem answer_scan (hsettings : Settings.load disk environment
      (document.getD (Settings.defaultDocument environment)) = .ok settings)
    (target : ScanTarget) : ∃ shown,
      answer run environment disk edits ⟨document, .scan target⟩ =
        .ofRan shown (runScan (engineOf run settings disk).value disk target).value := by
  unfold answer documentPath
  simp only [hsettings]
  exact ⟨_, rfl⟩

/-- Asked for the active project, a scan takes the first name of its root; asked for its name, it
takes this one. -/
theorem answer_active_tracked
    (hsettings : Settings.load disk environment
      (document.getD (Settings.defaultDocument environment)) = .ok settings)
    (hprojects : Registry.readProjects disk settings.projectsPath = .ok projects)
    (hroot : projects.activeRoot? = some root) :
    ∃ first, FirstName projects root first ∧ ∃ shown others,
      answer run environment disk edits ⟨document, .scan .active⟩ =
        .ofRan shown (ranOf ((engineOf run settings disk).value.scanAs .none disk root
          (Engine.nameOf root first)).value) ∧
      answer run environment disk edits ⟨document, .scan (.tracked projects.active)⟩ =
        .ofRan others (ranOf ((engineOf run settings disk).value.scanAs .none disk root
          (Engine.nameOf root projects.active)).value) := by
  have hsame : (engineOf run settings disk).value.settings = settings := rfl
  have hanswer := fun target => @answer_scan run _ _ edits _ _ hsettings target
  obtain ⟨shown, hactive⟩ := hanswer .active
  obtain ⟨others, htracked⟩ := hanswer (.tracked projects.active)
  obtain ⟨first, hfirst, hchosen⟩ := activeProject_eq settings.projectsPath hroot
  generalize (engineOf run settings disk).value = engine at hsame hactive htracked ⊢
  subst hsame
  have hrunActive : runScan engine disk .active = scanOne engine disk root first := by
    simp only [runScan, scanChosen, hprojects, hchosen]
  have hrunTracked : runScan engine disk (.tracked projects.active) =
      scanOne engine disk root projects.active := by
    simp only [runScan, scanChosen, hprojects, trackedProject_eq hroot]
  refine ⟨first, hfirst, shown, others, ?_, ?_⟩
  · rw [hactive, hrunActive, scanOne_value]
  · rw [htracked, hrunTracked, scanOne_value]

/-- Two runs end with the same code, print the same and leave the same disk. -/
def Agree (f g : Finish) : Prop :=
  f.code = g.code ∧ f.output = g.output ∧ f.disk = g.disk

instance (f g : Finish) : Decidable (Agree f g) :=
  inferInstanceAs (Decidable (_ ∧ _))

theorem agree_ofRan (shown others : List String) (ran : Ran) :
    Agree (.ofRan shown ran) (.ofRan others ran) :=
  ⟨rfl, rfl, rfl⟩

/-- Scans that succeed and end alike have printed the same line. -/
theorem reportLine_of_agree {shown others : List String} {r s : Report}
    {o p : Except ScanError Report × Disk}
    (h : Agree (.ofRan shown (ranOf o)) (.ofRan others (ranOf p)))
    (ho : o.1 = .ok r) (hp : p.1 = .ok s) : reportLine r = reportLine s := by
  obtain ⟨_, last⟩ := o
  obtain ⟨_, final⟩ := p
  subst ho hp
  have hlines : textOfLines [reportLine r] = textOfLines [reportLine s] := h.2.1
  have hlist : (reportLine r).toList ++ ['\n'] = (reportLine s).toList ++ ['\n'] := by
    simpa [textOfLines, String.join] using congrArg String.toList hlines
  exact String.toList_injective (List.append_cancel_right hlist)

/-- **The active project is scanned under its own name** exactly if no name before it is tracked
with the same root, or where the scan fails, which it does under all names alike.  (A blank first
name stands for the name of the root, which can be the active one.) -/
theorem active_agrees_iff
    (hsettings : Settings.load disk environment
      (document.getD (Settings.defaultDocument environment)) = .ok settings)
    (hprojects : Registry.readProjects disk settings.projectsPath = .ok projects)
    (hroot : projects.activeRoot? = some root)
    (hnamed : projects.active.toList.all Text.isBlank = false) :
    Agree (answer run environment disk edits ⟨document, .scan .active⟩)
        (answer run environment disk edits ⟨document, .scan (.tracked projects.active)⟩) ↔
      (∃ first, FirstName projects root first ∧ Engine.nameOf root first = projects.active) ∨
        ∃ failure, ((engineOf run settings disk).value.runScan disk root
          projects.active).value.outcome = .error failure := by
  obtain ⟨first, hfirst, shown, others, hactive, htracked⟩ :=
    @answer_active_tracked run _ _ edits _ _ _ _ hsettings hprojects hroot
  generalize (engineOf run settings disk).value = engine at hactive htracked ⊢
  have hown := Engine.nameOf_of_not_blank root hnamed
  have houtcome : (engine.runScan disk root projects.active).value.outcome =
      (engine.scanAs .none disk root (Engine.nameOf root projects.active)).value.1 := rfl
  rw [hactive, htracked, houtcome, hown]
  rcases engine.scanAs_under_names disk root with ⟨failure, last, hfails⟩ | ⟨g, old, hscans⟩
  · rw [hfails, hfails]
    exact ⟨fun _ => .inr ⟨failure, rfl⟩, fun _ => agree_ofRan _ _ _⟩
  · obtain ⟨saved, hsaved⟩ := hscans projects.active
    constructor
    · intro hagree
      obtain ⟨other, hother⟩ := hscans (Engine.nameOf root first)
      rw [hsaved, hother] at hagree
      have hproject := project_of_reportLine (reportLine_of_agree hagree rfl rfl) rfl rfl rfl
      exact .inl ⟨first, hfirst, hproject⟩
    · rintro (⟨name, hname, hproject⟩ | ⟨failure, hfailure⟩)
      · rw [hfirst.unique hname, hproject]
        exact agree_ofRan _ _ _
      · rw [hsaved] at hfailure
        cases hfailure

/-! ## Two names for one root -/

deriving instance DecidableEq for Registry.ProjectsDocument

/-- The names of two projects on one root, and which of them is active. -/
def twinProjects (active : String) : Registry.ProjectsDocument :=
  ⟨⟨[("alpha", .ofString "/w"), ("beta", .ofString "/w")], by decide⟩, active⟩

def twinDocument (active : String) : Json :=
  .ofFields [("projects", .ofFields [("alpha", .ofString "/w"), ("beta", .ofString "/w")]),
    ("active", .ofString active)]

def twinEnvironment : Environment :=
  { bindings := [("XDG_DATA_HOME", "/x")] }

/-- A disk with the document of the projects, and a file with a remark. -/
def twinDisk (active : String) : Disk :=
  ⟨.folder (Text.bytesOf "w")
    (.file (Text.bytesOf "a.go") Engine.remarkedSource false .empty)
    (.folder (Text.bytesOf "x")
      (.folder (Text.bytesOf "todowatch")
        (.file (Text.bytesOf "projects.json")
          (Text.Utf8.encode (twinDocument active).print) false .empty) .empty) .empty), []⟩

def noHelper : Helper.Runner :=
  fun _ _ _ _ => default

theorem firstName_twin (active : String) :
    FirstName (twinProjects active) (.ofString "/w") "alpha" := by
  refine ⟨⟨_, rfl, Path.same_self _⟩, fun name other hget _ => ?_⟩
  have hmem := OrderedMap.mem_of_get? hget
  simp only [twinProjects, List.mem_cons, Prod.mk.injEq, List.not_mem_nil, or_false] at hmem
  rcases hmem with ⟨rfl, -⟩ | ⟨rfl, -⟩ <;> decide +kernel

theorem load_twin (active : String) (h : active = "alpha" ∨ active = "beta") :
    Settings.load (twinDisk active) twinEnvironment (Settings.defaultDocument twinEnvironment) =
      .ok (.ofEnvironment twinEnvironment) := by
  refine Settings.load_unset ?_ (by decide +kernel)
  rcases h with rfl | rfl <;> decide +kernel

theorem readProjects_twin (active : String) (h : active = "alpha" ∨ active = "beta") :
    Registry.readProjects (twinDisk active)
      (Settings.ofEnvironment twinEnvironment).projectsPath = .ok (twinProjects active) := by
  rcases h with rfl | rfl <;> decide +kernel

theorem active_agrees_alpha :
    Agree (answer noHelper twinEnvironment (twinDisk "alpha") [] ⟨none, .scan .active⟩)
      (answer noHelper twinEnvironment (twinDisk "alpha") [] ⟨none, .scan (.tracked "alpha")⟩) :=
  (active_agrees_iff (load_twin "alpha" (.inl rfl)) (readProjects_twin "alpha" (.inl rfl)) rfl
    (by decide +kernel)).mpr (.inl ⟨"alpha", firstName_twin "alpha", by decide +kernel⟩)

theorem scanAs_twin {name : String} (h : name = "alpha" ∨ name = "beta") :
    ((engineOf noHelper (.ofEnvironment twinEnvironment) (twinDisk "beta")).value.scanAs
      .none (twinDisk "beta") (.ofString "/w") (Engine.nameOf (.ofString "/w") name)).value.1 =
        .ok ⟨name, .ofString "/w", 1, 1, 0, 1, 0⟩ := by
  rcases h with rfl | rfl <;> decide +kernel

/-- Where the second of two names is active, the project is scanned under the first one. -/
theorem not_active_agrees : ¬ ∀ (run : Helper.Runner) (environment : Environment) (disk : Disk)
    (settings : Settings) (projects : Registry.ProjectsDocument) (active : String),
    Settings.load disk environment (Settings.defaultDocument environment) = .ok settings →
    Registry.readProjects disk settings.projectsPath = .ok projects → projects.active = active →
    projects.activeRoot?.isSome = true → active.toList.all Text.isBlank = false →
    Agree (answer run environment disk [] ⟨none, .scan .active⟩)
      (answer run environment disk [] ⟨none, .scan (.tracked active)⟩) := by
  intro hall
  have hsettings := load_twin "beta" (.inr rfl)
  have hprojects := readProjects_twin "beta" (.inr rfl)
  have hagree := hall noHelper twinEnvironment (twinDisk "beta") (.ofEnvironment twinEnvironment)
    (twinProjects "beta") "beta" hsettings hprojects rfl rfl (by decide +kernel)
  obtain ⟨first, hfirst, shown, others, hactive, htracked⟩ :=
    @answer_active_tracked noHelper _ _ [] none _ _ _ hsettings hprojects rfl
  rw [hfirst.unique (firstName_twin "beta")] at hactive
  change answer _ _ _ _ ⟨none, .scan (.tracked "beta")⟩ = _ at htracked
  rw [hactive, htracked] at hagree
  have hline := reportLine_of_agree hagree (scanAs_twin (.inl rfl)) (scanAs_twin (.inr rfl))
  have hproject : "alpha" = "beta" := project_of_reportLine hline rfl rfl rfl
  revert hproject
  decide

end Commandline

end TodoIndex
