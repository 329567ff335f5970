import TodoIndex.Proofs.Scan.Locking

/-! # Shared engines are serial

However the steps of many calls come in between each other, the document is at every moment what
the commits so far have made of it one after another, in the order in which their calls took the
lock.  A load, which needs no lock, reads the document of some moment, and the listeners hear of
the commits in their order.

The document has to be readable alike while directories are created on the way to it.  It is, if
it exists, if its directory exists, or if its path is plain.
-/

namespace TodoIndex

open Store (Obstacle Steady)

namespace SharedEngine

variable {e : Engine} {first : Disk} {s t next : SharedEngine} {who : Nat} {call : Call} {m : Move}

/-! ## All states have the invariant -/

theorem Invariant.make (h : Steady first e.storePath) :
    Invariant e first (make e first) where
  engine := rfl
  reachable := .make
  alone who call progress hcall := by
    have hnone : (SharedEngine.make e first).calls[who]? = none := List.getElem?_nil
    cases hnone.symm.trans hcall
  stage who hholder := by cases hholder
  free _ := ⟨.nil, h⟩
  document := rfl
  came earlier who commit rest hcommits := by
    have hnil : earlier ++ (who, commit) :: rest = [] := hcommits.symm
    simp at hnil
  order := List.Sublist.refl _
  once := List.nodup_nil
  begun who hwho := by cases hwho
  loads who answer hcall := by
    have hnone : (SharedEngine.make e first).calls[who]? = none := List.getElem?_nil
    cases hnone.symm.trans hcall

theorem Reachable.invariant (h : Reachable e first s) (hfirst : Steady first e.storePath) :
    Invariant e first s := by
  induction h with
  | make => exact .make hfirst
  | move m _ hm ih =>
      cases m with
      | ask call =>
          cases hm
          exact ih.ask call
      | advance who obstacle => exact ih.advance hm

/-! ## Commits are never taken back -/

theorem commits_saveStep {commit : Commit} {answer : Answer} {outcome : Except StoreError Unit}
    {ahead : List Disk} :
    s.commits <+: (s.saveStep who call commit answer outcome ahead).commits := by
  unfold saveStep
  split
  · split
    · exact List.prefix_refl _
    · exact List.prefix_refl _
  · dsimp only
    split
    · exact List.prefix_append _ _
    · exact List.prefix_refl _

theorem commits_enter (h : s.enter who call = some next) : s.commits <+: next.commits := by
  unfold SharedEngine.enter at h
  split at h
  · cases h
    exact List.prefix_refl _
  · split at h
    · cases h
    · cases h
      exact List.prefix_refl _

theorem commits_move (hm : s.move? m = some next) : s.commits <+: next.commits := by
  cases m with
  | ask call =>
      cases hm
      exact List.prefix_refl _
  | advance who obstacle =>
      have hadvance : s.advance who obstacle = some next := hm
      unfold SharedEngine.advance at hadvance
      cases hcall : s.calls[who]? with
      | none =>
          rw [hcall] at hadvance
          cases hadvance
      | some entry =>
          obtain ⟨call, progress⟩ := entry
          rw [hcall] at hadvance
          cases progress with
          | asked => exact commits_enter hadvance
          | saving commit ahead outcome answer =>
              cases hadvance
              exact commits_saveStep
          | finished answer => cases hadvance
          | _ =>
              cases hadvance
              exact List.prefix_refl _

theorem Before.commits (h : t.Before s) : t.commits <+: s.commits := by
  induction h with
  | same => exact List.prefix_refl _
  | move m _ hm ih => exact ih.trans (commits_move hm)

/-! ## The sequential history of a state -/

/-- What a state has in common with one that only the commits have led to, one after another. -/
structure Serial (e : Engine) (first : Disk) (s : SharedEngine) : Prop where
  /-- The document is what the commits have made of it. -/
  document : s.disk.contents e.storePath =
    Commit.writeAll e.storePath s.commits (first.contents e.storePath)
  /-- The commits stand in the order in which their calls took the lock. -/
  order : (s.commits.map Prod.fst).Sublist s.admitted ∧ s.admitted.Nodup
  /-- A commit makes of the document what its call would have made of it alone. -/
  came : ∀ earlier who commit later, s.commits = earlier ++ (who, commit) :: later →
    CameAlone e first s earlier who commit
  /-- The last commit of a project is what the document records of it. -/
  kept : ∀ earlier who commit later, s.commits = earlier ++ (who, commit) :: later →
    (∀ other ∈ later, other.2.project ≠ commit.project) →
      ∃ store, Store.load s.disk e.storePath = .ok store ∧
        store.project? commit.project = commit.left?
  /-- A call that loads the store gets what some of the commits had made of it. -/
  loads : ∀ (who : Nat) (answer : Answer), s.calls[who]? = some (.load, .finished answer) →
    ∃ earlier, earlier <+: s.commits ∧ answer = .loaded ((Store.loadFrom e.storePath
      (Commit.writeAll e.storePath earlier (first.contents e.storePath))).mapError .store)
  /-- The events tell of the commits in their order; that of the last commit can still be to
  come while its call has the lock. -/
  told : ∃ heard late, s.commits = heard ++ late ∧ Tells heard s.told ∧ late.length ≤ 1 ∧
    (s.holder = none → late = [])

theorem Invariant.kept (inv : Invariant e first s) (hfirst : Steady first e.storePath)
    {earlier later : List (Nat × Commit)} {commit : Commit}
    (hcommits : s.commits = earlier ++ (who, commit) :: later)
    (hothers : ∀ other ∈ later, other.2.project ≠ commit.project) :
    ∃ store, Store.load s.disk e.storePath = .ok store ∧
      store.project? commit.project = commit.left? := by
  obtain ⟨t, -, -, -, -, -, -, old, hpassed, -, -, hbefore, hload, -⟩ :=
    inv.came earlier who commit later hcommits
  have hthen := (hpassed.1.invariant hfirst).document
  rw [hbefore] at hthen
  rw [Store.load_eq, hthen] at hload
  rw [Store.load_eq, inv.document, hcommits, Commit.writeAll_append]
  exact Commit.loadFrom_writeAll_last hload hothers

theorem Invariant.loaded (inv : Invariant e first s) (hfirst : Steady first e.storePath)
    {answer : Answer} (hcall : s.calls[who]? = some (.load, .finished answer)) :
    ∃ earlier, earlier <+: s.commits ∧ answer = .loaded ((Store.loadFrom e.storePath
      (Commit.writeAll e.storePath earlier (first.contents e.storePath))).mapError .store) := by
  obtain ⟨t, hpassed, hanswer⟩ := inv.loads who answer hcall
  refine ⟨t.commits, hpassed.2.commits, ?_⟩
  rw [hanswer, Engine.loadStore_value, (hpassed.1.invariant hfirst).document]

theorem Stage.heard {progress : Progress} (h : Stage e first s who call progress) :
    ∃ heard late, s.commits = heard ++ late ∧ Tells heard s.told ∧ late.length ≤ 1 := by
  have hall : s.AllTold → ∃ heard late, s.commits = heard ++ late ∧ Tells heard s.told ∧
      late.length ≤ 1 :=
    fun htold => ⟨s.commits, [], (List.append_nil _).symm, htold, Nat.zero_le 1⟩
  have hbut : ∀ {commit : Commit}, s.ToldBut who commit → ∃ heard late,
      s.commits = heard ++ late ∧ Tells heard s.told ∧ late.length ≤ 1 := by
    rintro commit ⟨earlier, hcommits, htells⟩
    exact ⟨earlier, [(who, commit)], hcommits, htells, Nat.le_refl 1⟩
  cases h with
  | locked hwaits => exact hall hwaits.told
  | gathered hwaits => exact hall hwaits.told
  | prepared hwaits => exact hall hwaits.told
  | saving hwaits => exact hall hwaits.told
  | saved htold => exact hbut htold
  | telling htold => exact hbut htold
  | failing htold => exact hall htold
  | leaving htold => exact hall htold

theorem Invariant.heard (inv : Invariant e first s) :
    ∃ heard late, s.commits = heard ++ late ∧ Tells heard s.told ∧ late.length ≤ 1 ∧
      (s.holder = none → late = []) := by
  cases hholder : s.holder with
  | none =>
      obtain ⟨htold, -⟩ := inv.free hholder
      exact ⟨s.commits, [], (List.append_nil _).symm, htold, Nat.zero_le 1, fun _ => rfl⟩
  | some who =>
      obtain ⟨call, progress, -, -, hstage⟩ := inv.stage who hholder
      obtain ⟨heard, late, hcommits, htells, hlength⟩ := hstage.heard
      refine ⟨heard, late, hcommits, htells, hlength, ?_⟩
      intro hnone
      cases hnone

/-- Every state that an engine can come to is serial. -/
theorem serial (h : Reachable e first s)
    (hfirst : first.contents e.storePath = .error .notFound → Store.Site first e.storePath) :
    Serial e first s := by
  have inv := h.invariant hfirst
  refine ⟨inv.document, ⟨inv.order, inv.once⟩, inv.came, ?_, ?_, inv.heard⟩
  · intro earlier who commit later hcommits hothers
    exact inv.kept hfirst hcommits hothers
  · intro who answer hcall
    exact inv.loaded hfirst hcall

/-! ## Two scans and a load at one time -/

theorem Reachable.drive (h : Reachable e first s) (who steps : Nat) :
    Reachable e first (s.drive who steps) := by
  induction steps generalizing s with
  | zero => exact h
  | succ steps ih =>
      unfold SharedEngine.drive
      cases hnext : s.advance who .none with
      | none => exact h
      | some next => exact ih (h.move (.advance who .none) hnext)

theorem Reachable.ask (h : Reachable e first s) (call : Call) : Reachable e first (s.ask call) :=
  h.move (.ask call) rfl

/-- An engine without readers. -/
def bareEngine : Engine :=
  .make (.defaults (.ofString "data")) .none fun _ _ _ _ => default

/-- A working directory with two projects. -/
def sharedDisk : Disk :=
  ⟨.folder (Text.bytesOf "p") .empty (.folder (Text.bytesOf "q") .empty .empty), []⟩

/-- Both projects are scanned.  The store is loaded while the first scan saves it, and the second
scan has to wait for the lock. -/
def sharedRun : SharedEngine :=
  let asked := ((make bareEngine sharedDisk).ask (.scan (.ofString "p") "p")).ask
    (.scan (.ofString "q") "q") |>.ask .load
  ((((asked.drive 0 6).drive 2 1).drive 1 9).drive 0 99).drive 1 99

theorem reachable_sharedRun : Reachable bareEngine sharedDisk sharedRun := by
  have hmade : Reachable bareEngine sharedDisk (make bareEngine sharedDisk) := .make
  have hasked := ((hmade.ask (.scan (.ofString "p") "p")).ask (.scan (.ofString "q") "q")).ask .load
  exact ((((hasked.drive 0 6).drive 2 1).drive 1 9).drive 0 99).drive 1 99

theorem serial_sharedRun : sharedRun.commits.map Prod.fst = [0, 1] ∧
    Serial bareEngine sharedDisk sharedRun := by
  have hplain : ∀ piece ∈ Path.pieces bareEngine.storePath.bytes,
      piece ≠ [Path.dot, Path.dot] ∧ piece.length ≤ Disk.maxName := by
    decide +kernel
  exact ⟨by decide +kernel, serial reachable_sharedRun fun _ => .inr hplain⟩

/-! ## A save that fails and leaves a directory -/

/-- An engine whose document has a directory in its path that is missing, and a file in the place
of one. -/
def strayEngine : Engine :=
  { bareEngine with storePath := .ofString "x/../y/../t" }

/-- A working directory with this file and a project. -/
def strayDisk : Disk :=
  ⟨.file (Text.bytesOf "y") [] false (.folder (Text.bytesOf "p") .empty .empty), []⟩

/-- The project is scanned. -/
def strayRun : SharedEngine :=
  ((make strayEngine strayDisk).ask (.scan (.ofString "p") "p")).drive 0 99

theorem reachable_strayRun : Reachable strayEngine strayDisk strayRun := by
  have hmade : Reachable strayEngine strayDisk (make strayEngine strayDisk) := .make
  exact (hmade.ask (.scan (.ofString "p") "p")).drive 0 99

/-- The first directory is created before the file stops the save; the document was missing, and
now it is under a file, although there was no commit. -/
theorem document_strayRun : ¬ ∀ (e : Engine) (first : Disk) (s : SharedEngine),
    Reachable e first s → s.disk.contents e.storePath =
      Commit.writeAll e.storePath s.commits (first.contents e.storePath) := by
  intro hall
  have hdocument := hall strayEngine strayDisk strayRun reachable_strayRun
  have hcommits : strayRun.commits = [] := by decide +kernel
  have hbefore : strayDisk.contents strayEngine.storePath = .error .notFound := by decide +kernel
  have hafter : strayRun.disk.contents strayEngine.storePath = .error .notDirectory := by
    decide +kernel
  rw [hcommits, Commit.writeAll_nil, hbefore, hafter] at hdocument
  cases hdocument

end SharedEngine

end TodoIndex
