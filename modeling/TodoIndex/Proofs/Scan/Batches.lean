import TodoIndex.Proofs.Scan.Repetition
import TodoIndex.Proofs.Store.Outcomes
import TodoIndex.Registry.Projects

/-! # Batches of scans

The scans of a batch follow one another on one disk, and each saves the whole document.  Still
each comes to what it would come to alone: the document that it loads differs from the first one
in other projects only, and whether a document can be saved does not depend on what is in it.
-/

namespace TodoIndex

open Store (Admits Refuses Site Steady)

namespace Engine

variable {e : Engine} {first d saved last : Disk} {root : Path} {name project : String}
  {store old cur : Store} {g : Gathered} {cause : StoreError}

/-- What the document holds of a project, if it can be loaded. -/
def held (e : Engine) (disk : Disk) (name : String) :
    Except ScanError (Option (List Remark)) :=
  (e.loadStore disk).value.map (·.project? name)

theorem held_of_load (h : (e.loadStore d).value = .ok store) (name : String) :
    e.held d name = .ok (store.project? name) := by
  rw [held, h]
  rfl

/-! ## One scan -/

/-- A store that is saved is loaded again with the new remarks as they are recorded. -/
theorem load_of_commit (hload : (e.loadStore d).value = .ok cur) (hsite : Site d e.storePath)
    (hsave : (conclude root project g cur).2.saveUnder .none d e.storePath = (.ok (), saved)) :
    (e.loadStore saved).value =
        .ok (cur.replaceProject project (g.remarks.map Remark.recorded)).2 ∧
      saved.isFolder (Store.folderOf e.storePath) = true := by
  have hbefore := Store.contents_of_loadFrom (loadFrom_of_loadStore hload)
  rw [← hsite.contents_eq.1] at hbefore
  have hcontents := (Store.replaced_of_save hsave).contents hbefore
  have hrecorded : cur.recorded = cur :=
    (Store.holdsMade_of_load (load_of_loadStore hload)).recorded_eq
  have hdocument : (conclude root project g cur).2.recorded =
      (cur.replaceProject project (g.remarks.map Remark.recorded)).2 := by
    rw [conclude, Store.recorded_replaceProject, hrecorded]
  refine ⟨loadStore_of_load ?_, Store.isFolder_of_contents hcontents⟩
  rw [Store.load_eq, hcontents, Store.loadFrom_document, hdocument]

theorem scanAs_of_refuses (hgather : (e.gather d root project).value = .ok g)
    (hload : (e.loadStore d).value = .ok cur) (h : Refuses d e.storePath cause last) :
    (e.scanAs .none d root project).value = (.error (.store cause), last) := by
  rw [scanAs, Noted.value_bind, hgather]
  dsimp only
  rw [revise, Noted.value_bind, hload]
  dsimp only
  rw [Noted.value_bind, saveStore, h]
  rfl

theorem scanAs_of_gather_error {failure : ScanError}
    (h : (e.gather d root project).value = .error failure) :
    (e.scanAs .none d root project).value = (.error failure, d) := by
  rw [scanAs, Noted.value_bind, h]
  rfl

theorem scanAs_of_load_error {failure : ScanError}
    (hgather : (e.gather d root project).value = .ok g)
    (hload : (e.loadStore d).value = .error failure) :
    (e.scanAs .none d root project).value = (.error failure, d) := by
  rw [scanAs, Noted.value_bind, hgather]
  dsimp only
  rw [revise, Noted.value_bind, hload]
  rfl

/-! ## Disks on which scans come to the same -/

/-- A disk on which scans come to what they come to on the first one: the document cannot be
loaded and nothing has changed, or it can be saved on both or on neither. -/
inductive Aligned (e : Engine) (first : Disk) : Disk → Prop where
  | stuck {failure : ScanError} : (e.loadStore first).value = .error failure → Aligned e first first
  | going {d : Disk} {old cur : Store} : (e.loadStore first).value = .ok old →
      (e.loadStore d).value = .ok cur → Site d e.storePath →
      (Admits first e.storePath ∧ Admits d e.storePath ∨
        ∃ cause last final, Refuses first e.storePath cause last ∧
          Refuses d e.storePath cause final) → Aligned e first d

theorem site_of_load (h : (e.loadStore d).value = .ok cur) (hsteady : Steady d e.storePath) :
    Site d e.storePath := by
  rcases Store.contents_of_loadFrom (loadFrom_of_loadStore h) with ⟨bytes, hbytes⟩ | hnone
  · exact .inl (Store.isFolder_of_contents hbytes)
  · exact hsteady hnone

theorem aligned_self (h : Steady d e.storePath) : Aligned e d d := by
  cases hload : (e.loadStore d).value with
  | error failure => exact .stuck hload
  | ok cur =>
      refine .going hload hload (site_of_load hload h) ?_
      rcases Store.admits_or_refuses d e.storePath with hadmits | ⟨cause, last, hrefuses⟩
      · exact .inl ⟨hadmits, hadmits⟩
      · exact .inr ⟨cause, last, last, hrefuses, hrefuses⟩

/-- What comes of a scan on a disk, beside what comes of it on the first one. -/
structure Likewise (e : Engine) (first d : Disk) (root : Path) (project : String) : Prop where
  outcome : (e.scanAs .none d root project).value.1 = (e.scanAs .none first root project).value.1
  aligned : Aligned e first (e.scanAs .none d root project).value.2
  others : ∀ other, other ≠ project →
    e.held (e.scanAs .none d root project).value.2 other = e.held d other
  stored : ∀ report, (e.scanAs .none first root project).value.1 = .ok report →
    e.held (e.scanAs .none d root project).value.2 project =
      .ok (some ((e.remarksBelow first root).map Remark.recorded))
  kept : ∀ failure, (e.scanAs .none first root project).value.1 = .error failure →
    e.held (e.scanAs .none d root project).value.2 project = e.held d project

/-- A scan that fails on both disks and leaves the document as it was. -/
theorem Likewise.of_error {failure : ScanError} {d' first' : Disk}
    (hd : (e.scanAs .none d root project).value = (.error failure, d'))
    (hfirst : (e.scanAs .none first root project).value = (.error failure, first'))
    (haligned : Aligned e first d') (hheld : ∀ name, e.held d' name = e.held d name) :
    Likewise e first d root project := by
  constructor
  · rw [hd, hfirst]
  · rwa [hd]
  · intro other _
    rw [hd, hheld]
  · intro report hreport
    rw [hfirst] at hreport
    cases hreport
  · intro _ _
    rw [hd, hheld]

theorem site_of_intact {path : Path} (h : Store.Intact d last path) (hsite : Site d path) :
    Site last path :=
  hsite.imp_left h.grown.isFolder

/-- A store that cannot be saved on either disk stays as it was loaded. -/
theorem Likewise.of_refuses {final : Disk} (hfirst : (e.gather first root project).value = .ok g)
    (hgather : (e.gather d root project).value = .ok g) (hold : (e.loadStore first).value = .ok old)
    (hcur : (e.loadStore d).value = .ok cur) (hsite : Site d e.storePath)
    (hrefuses : Refuses first e.storePath cause last)
    (hrefused : Refuses d e.storePath cause final) : Likewise e first d root project := by
  have hscan := scanAs_of_refuses hgather hcur hrefused
  have hintact := intact_scanAs hscan
  have hload : (e.loadStore final).value = .ok cur := by
    rw [loadStore_value, hintact.same fun _ => hsite, ← loadStore_value, hcur]
  obtain ⟨next, hnext⟩ := hrefused.again hsite
  have haligned : Aligned e first final :=
    .going hold hload (site_of_intact hintact hsite) (.inr ⟨cause, last, next, hrefuses, hnext⟩)
  refine .of_error hscan (scanAs_of_refuses hfirst hold hrefuses) haligned fun name => ?_
  rw [held_of_load hload, held_of_load hcur]

/-- A store that can be saved on both disks has the new remarks of the project afterwards. -/
theorem Likewise.of_admits (hfirst : (e.gather first root project).value = .ok g)
    (hgather : (e.gather d root project).value = .ok g) (hold : (e.loadStore first).value = .ok old)
    (hcur : (e.loadStore d).value = .ok cur) (hsite : Site d e.storePath)
    (hadmits : Admits first e.storePath) (hadmitted : Admits d e.storePath)
    (hproject : cur.project? project = old.project? project) : Likewise e first d root project := by
  obtain ⟨saved, hsaved⟩ := hadmitted (conclude root project g cur).2
  obtain ⟨other, hother⟩ := hadmits (conclude root project g old).2
  have hscan := scanAs_of_save hgather hcur hsaved
  have halone := scanAs_of_save hfirst hold hother
  obtain ⟨hload, hfolder⟩ := load_of_commit hcur hsite hsaved
  have hremarks : g.remarks = e.remarksBelow first root :=
    congrArg Gathered.remarks (gather_value hfirst)
  constructor
  · rw [hscan, halone]
    simp only [conclude, hproject]
  · rw [hscan]
    exact .going hold hload (.inl hfolder)
      (.inl ⟨hadmits, fun next => Store.save_again next hsaved hfolder⟩)
  · intro name hname
    rw [hscan, held_of_load hload, held_of_load hcur]
    exact congrArg Except.ok ((Store.updated_replaceProject _ _ _).others name hname)
  · intro report _
    rw [hscan, held_of_load hload, ← hremarks]
    exact congrArg Except.ok (Store.updated_replaceProject _ _ _).same
  · intro failure hfailure
    rw [halone] at hfailure
    cases hfailure

/-- A scan comes to the same on an aligned disk where it finds the same and the document holds
the same of its project. -/
theorem Aligned.likewise (h : Aligned e first d)
    (hgather : (e.gather d root project).value = (e.gather first root project).value)
    (hheld : e.held d project = e.held first project) : Likewise e first d root project := by
  cases hfirst : (e.gather first root project).value with
  | error failure =>
      exact .of_error (scanAs_of_gather_error (hgather.trans hfirst))
        (scanAs_of_gather_error hfirst) h fun _ => rfl
  | ok g =>
      have hfound := hgather.trans hfirst
      cases h with
      | stuck hload =>
          have hscan := scanAs_of_load_error hfirst hload
          exact .of_error hscan hscan (.stuck hload) fun _ => rfl
      | going hold hcur hsite hsaves =>
          rcases hsaves with ⟨hadmits, hadmitted⟩ | ⟨cause, last, final, hrefuses, hrefused⟩
          · rw [held_of_load hcur, held_of_load hold] at hheld
            exact .of_admits hfirst hfound hold hcur hsite hadmits hadmitted (Except.ok.inj hheld)
          · exact .of_refuses hfirst hfound hold hcur hsite hrefuses hrefused

/-! ## All scans of a batch -/

theorem nameOf_of_not_blank (root : Path) (h : name.toList.all Text.isBlank = false) :
    nameOf root name = name := by
  rw [nameOf, h]
  rfl

/-- The disk after the first projects of a batch. -/
def diskAfter (e : Engine) (disk : Disk) (projects : List (String × Path)) : Disk :=
  (e.runBatch disk projects).value.2.1

@[simp] theorem diskAfter_nil : e.diskAfter d [] = d := rfl

@[simp] theorem diskAfter_cons (rest : List (String × Path)) :
    e.diskAfter d ((name, root) :: rest) =
      e.diskAfter (e.scanAs .none d root (nameOf root name)).value.2 rest := rfl

/-- What a scan of a project alone comes to. -/
def aloneOutcome (e : Engine) (disk : Disk) (p : String × Path) : Outcome :=
  ⟨p.1, p.2, (e.runScan disk p.2 p.1).value.outcome⟩

/-- A project is found, when its turn in a batch comes, as it is found on the first disk. -/
def FoundAlike (e : Engine) (first d : Disk) (projects : List (String × Path)) : Prop :=
  ∀ n (h : n < projects.length),
    (e.gather (e.diskAfter d (projects.take n)) projects[n].2
      (nameOf projects[n].2 projects[n].1)).value =
    (e.gather first projects[n].2 (nameOf projects[n].2 projects[n].1)).value

theorem FoundAlike.head {rest : List (String × Path)}
    (h : FoundAlike e first d ((name, root) :: rest)) :
    (e.gather d root (nameOf root name)).value = (e.gather first root (nameOf root name)).value :=
  h 0 (Nat.zero_lt_succ _)

theorem FoundAlike.tail {rest : List (String × Path)}
    (h : FoundAlike e first d ((name, root) :: rest)) :
    FoundAlike e first (e.scanAs .none d root (nameOf root name)).value.2 rest :=
  fun n hn => h (n + 1) (Nat.succ_lt_succ hn)

/-- A batch on an aligned disk: its outcomes are those of the scans alone, and the document holds
the new remarks of the projects whose scans succeed, and of all others what it held. -/
structure Follows (e : Engine) (first d : Disk) (projects : List (String × Path)) : Prop where
  outcomes : (e.runBatch d projects).value.1 = projects.map (e.aloneOutcome first)
  stored : ∀ p ∈ projects, ∀ report, (e.aloneOutcome first p).result = .ok report →
    e.held (e.diskAfter d projects) p.1 =
      .ok (some ((e.remarksBelow first p.2).map Remark.recorded))
  kept : ∀ name, (∀ p ∈ projects, p.1 = name →
      ∃ failure, (e.aloneOutcome first p).result = .error failure) →
    e.held (e.diskAfter d projects) name = e.held d name

theorem Aligned.follows {projects : List (String × Path)} (h : Aligned e first d)
    (hnodup : (projects.map Prod.fst).Nodup)
    (hnames : ∀ p ∈ projects, p.1.toList.all Text.isBlank = false)
    (hfound : FoundAlike e first d projects)
    (hheld : ∀ p ∈ projects, e.held d p.1 = e.held first p.1) : Follows e first d projects := by
  induction projects generalizing d with
  | nil => exact ⟨rfl, fun p hp => (List.not_mem_nil hp).elim, fun _ _ => rfl⟩
  | cons p rest ih =>
      obtain ⟨name, root⟩ := p
      obtain ⟨hname, hrest⟩ := List.forall_mem_cons.mp hnames
      obtain ⟨hown, hothers⟩ := List.forall_mem_cons.mp hheld
      obtain ⟨hfresh, hdistinct⟩ := List.nodup_cons.mp hnodup
      have hproject := nameOf_of_not_blank root hname
      have hlike := h.likewise hfound.head (by rwa [hproject])
      have hne : ∀ q ∈ rest, q.1 ≠ name := by
        rintro q hq hsame
        exact hfresh (hsame ▸ List.mem_map.mpr ⟨q, hq, rfl⟩)
      have hnext := ih hlike.aligned hdistinct hrest hfound.tail fun q hq => by
        rw [hlike.others _ (by rw [hproject]; exact hne q hq), hothers q hq]
      -- The other projects of the batch leave alone what the document holds of this one.
      have hrestored : e.held (e.diskAfter d ((name, root) :: rest)) name =
          e.held (e.scanAs .none d root (nameOf root name)).value.2 name :=
        hnext.kept name fun q hq hsame => absurd hsame (hne q hq)
      constructor
      · have hhead : (e.runScan d root name).value.outcome =
            (e.runScan first root name).value.outcome := hlike.outcome
        have hbatch : (e.runBatch d ((name, root) :: rest)).value.1 =
            ⟨name, root, (e.runScan d root name).value.outcome⟩ ::
              (e.runBatch (e.scanAs .none d root (nameOf root name)).value.2 rest).value.1 := rfl
        rw [hbatch, hhead, hnext.outcomes]
        rfl
      · refine List.forall_mem_cons.mpr ⟨fun report hreport => ?_, hnext.stored⟩
        have hstored := hlike.stored report hreport
        rw [hproject] at hstored
        rw [hrestored, hproject]
        exact hstored
      · intro other hfailed
        obtain ⟨hself, hlater⟩ := List.forall_mem_cons.mp hfailed
        rw [diskAfter_cons, hnext.kept other hlater]
        by_cases hother : other = name
        · subst hother
          obtain ⟨failure, hfailure⟩ := hself rfl
          have hkept := hlike.kept failure hfailure
          rwa [hproject] at hkept ⊢
        · exact hlike.others other (by rwa [hproject])

/-- What a batch of all tracked projects comes to. -/
structure Isolated (e : Engine) (disk : Disk) (registry : Registry.ProjectsDocument)
    (outcomes : List Outcome) (last : Disk) : Prop where
  /-- There is one outcome for each tracked project, in the order of the names. -/
  each : outcomes.map (fun o => (o.name, o.root)) = registry.tracked
  tracked : registry.tracked.Perm registry.projects.entries
  ordered : (outcomes.map (·.name)).Pairwise (· < ·)
  /-- It is the outcome of a scan of this project alone. -/
  alone : ∀ o ∈ outcomes, o.result = (e.runScan disk o.root o.name).value.outcome
  /-- The document holds what it holds after that scan: the remarks below the root. -/
  stored : ∀ o ∈ outcomes, ∀ report, o.result = .ok report →
    e.held last o.name = e.held (e.runScan disk o.root o.name).value.disk o.name ∧
      e.held last o.name = .ok (some ((e.remarksBelow disk o.root).map Remark.recorded))
  kept : ∀ name, (∀ o ∈ outcomes, o.name = name → ∃ failure, o.result = .error failure) →
    e.held last name = e.held disk name

/-- **The projects of a batch are isolated.**  Each scan comes to what it comes to alone, whether
the others fail or not; afterwards the document holds the new remarks of the projects whose scans
succeeded, and of all others what it held. -/
theorem batch_isolated (e : Engine) (disk : Disk) (registry : Registry.ProjectsDocument)
    (hnames : ∀ name ∈ registry.projects.names, name.toList.all Text.isBlank = false)
    (hfound : FoundAlike e disk disk registry.tracked)
    (hsite : disk.contents e.storePath = .error .notFound → Site disk e.storePath) :
    ∃ outcomes, (e.scanAll disk (.ok registry.tracked)).value.outcome = .ok outcomes ∧
      Isolated e disk registry outcomes (e.scanAll disk (.ok registry.tracked)).value.disk := by
  have htracked : registry.tracked.Perm registry.projects.entries := registry.projects.perm_sorted
  have hblank : ∀ p ∈ registry.tracked, p.1.toList.all Text.isBlank = false := fun p hp =>
    hnames p.1 (List.mem_map_of_mem (htracked.mem_iff.mp hp))
  have hself := aligned_self hsite
  have hfollows := hself.follows registry.projects.nodup_sorted hblank hfound fun _ _ => rfl
  refine ⟨registry.tracked.map (e.aloneOutcome disk), congrArg Except.ok hfollows.outcomes, ?_⟩
  have hmem : ∀ {o : Outcome}, o ∈ registry.tracked.map (e.aloneOutcome disk) →
      ∃ p ∈ registry.tracked, e.aloneOutcome disk p = o := fun h => List.mem_map.mp h
  refine ⟨?_, htracked, ?_, ?_, ?_, ?_⟩
  · rw [List.map_map]
    exact List.map_id _
  · rw [List.map_map]
    exact registry.projects.pairwise_sorted
  · intro o ho
    obtain ⟨p, -, rfl⟩ := hmem ho
    rfl
  · intro o ho report hreport
    obtain ⟨p, hp, rfl⟩ := hmem ho
    have hstored := hfollows.stored p hp report hreport
    have hlikewise : Likewise e disk disk p.2 (nameOf p.2 p.1) := hself.likewise rfl rfl
    have halone := hlikewise.stored report hreport
    have hlast : (e.runScan disk p.2 p.1).value.disk =
        (e.scanAs .none disk p.2 (nameOf p.2 p.1)).value.2 := rfl
    rw [nameOf_of_not_blank p.2 (hblank p hp)] at halone hlast
    refine ⟨hstored.trans ?_, hstored⟩
    change _ = e.held (e.runScan disk p.2 p.1).value.disk p.1
    rw [hlast, halone]
  · intro name hfailed
    refine hfollows.kept name fun p hp hname => ?_
    exact hfailed _ (List.mem_map_of_mem hp) hname

/-! ## Three projects -/

/-- The first project has a remark, the second one is missing and the third one was stored before
and is not tracked any more. -/
def batchDisk : Disk :=
  ((mixedEngine.runScan (mixedEngine.runScan mixedProject (.ofString "p") "late").value.disk
    (.ofString "p") "stale").value.disk.remove (.ofString "p/d.go")).2

def batchRegistry : Registry.ProjectsDocument :=
  ⟨⟨[("gone", .ofString "q"), ("late", .ofString "p")], by decide⟩, ""⟩

theorem tracked_batchRegistry : batchRegistry.tracked = batchRegistry.projects.entries :=
  OrderedMap.sorted_of_pairwise (by decide +kernel)

theorem batch_isolated_gone :
    ∃ outcomes, (mixedEngine.scanAll batchDisk (.ok batchRegistry.tracked)).value.outcome =
        .ok outcomes ∧
      Isolated mixedEngine batchDisk batchRegistry outcomes
        (mixedEngine.scanAll batchDisk (.ok batchRegistry.tracked)).value.disk := by
  refine batch_isolated mixedEngine batchDisk batchRegistry (by decide +kernel) ?_ ?_
  · rw [tracked_batchRegistry]
    unfold FoundAlike
    decide +kernel
  · have hthere : batchDisk.contents mixedEngine.storePath ≠ .error .notFound := by decide +kernel
    exact fun hnone => absurd hnone hthere

/-! ## A save that changes how the next one fails -/

/-- An engine whose document is to stand behind a missing directory, in the place of another
directory. -/
def blockedEngine : Engine :=
  { mixedEngine with storePath := .ofString "x/../t" }

/-- A working directory with this directory and two projects. -/
def blockedDisk : Disk :=
  ⟨.folder (Text.bytesOf "p") .empty (.folder (Text.bytesOf "q") .empty
    (.folder (Text.bytesOf "t") .empty .empty)), []⟩

def blockedRegistry : Registry.ProjectsDocument :=
  ⟨⟨[("p", .ofString "p"), ("q", .ofString "q")], by decide⟩, ""⟩

/-- The first scan makes the missing directory before its save fails; the second one, which alone
would fail in its save too, then meets a directory where it loads the document. -/
theorem batch_not_isolated : ¬ ∀ (e : Engine) (disk : Disk) (registry : Registry.ProjectsDocument),
    (∀ name ∈ registry.projects.names, name.toList.all Text.isBlank = false) →
    FoundAlike e disk disk registry.tracked →
    ∃ outcomes, (e.scanAll disk (.ok registry.tracked)).value.outcome = .ok outcomes ∧
      Isolated e disk registry outcomes (e.scanAll disk (.ok registry.tracked)).value.disk := by
  intro hall
  have htracked : blockedRegistry.tracked = blockedRegistry.projects.entries :=
    OrderedMap.sorted_of_pairwise (by decide +kernel)
  have hfound : FoundAlike blockedEngine blockedDisk blockedDisk blockedRegistry.tracked := by
    rw [htracked]
    unfold FoundAlike
    decide +kernel
  obtain ⟨outcomes, houtcomes, hisolated⟩ :=
    hall blockedEngine blockedDisk blockedRegistry (by decide +kernel) hfound
  have hbatch : ((blockedEngine.scanAll blockedDisk
      (.ok blockedRegistry.projects.entries)).value.outcome.toOption.bind fun outcomes =>
        outcomes.getLast?.map fun o => (o.name, o.root, o.result)) =
      some ("q", .ofString "q", .error (.store (.io (.ofString "x/../t") .isDirectory))) := by
    decide +kernel
  have hown : (blockedEngine.runScan blockedDisk (.ofString "q") "q").value.outcome =
      .error (.store (.notReplaced (.ofString "x/../t") .isDirectory)) := by
    decide +kernel
  rw [← htracked, houtcomes] at hbatch
  obtain ⟨o, hlast, ho⟩ := Option.map_eq_some_iff.mp hbatch
  obtain ⟨hname, hroot, hresult⟩ : o.name = "q" ∧ o.root = .ofString "q" ∧
      o.result = .error (.store (.io (.ofString "x/../t") .isDirectory)) := by
    simpa using ho
  have halone := hisolated.alone o (List.mem_of_getLast? hlast)
  rw [hname, hroot, hown, hresult] at halone
  simp at halone

end Engine

end TodoIndex
