import TodoIndex.Proofs.Watch.Lifecycle

/-! # Starts in vain

An idle watcher whose projects cannot be listed is as it was before it was told to start.  One whose
stream somebody else has taken is not: it loses its loop, and with it the source, so that it starts
no more and does not close the source when it is stopped.
-/

namespace TodoIndex

namespace Session

/-- What a registry answers when it is asked for the tracked projects. -/
abbrev Tracked := Except RegistryError (List (String × Path))

variable {s : Session} {loop : Loop} {source : Source} {e : WatchError} {tracked : Tracked}

/-- A session goes on as another one would: starts are answered alike, whatever the registry says,
messages are taken alike, and to stop leaves the source the same. -/
structure GoesOnAs (after before : Session) : Prop where
  start : ∀ tracked : Tracked, (after.start tracked).value.1 = (before.start tracked).value.1
  send : ∀ message, (after.send message).1 = (before.send message).1
  stop : after.stop.value.1.watcher = before.stop.value.1.watcher

/-- The watcher has a loop and the projects can be listed, but somebody has taken the stream. -/
def LacksStream (s : Session) (tracked : Tracked) : Prop :=
  ∃ loop projects, s.watcher = .idle loop ∧ tracked = .ok projects ∧ loop.source.taken = true

/-! ## Two ways to fail -/

theorem GoesOnAs.refl (s : Session) : s.GoesOnAs s where
  start _ := rfl
  send _ := rfl
  stop := rfl

theorem LacksStream.start (h : s.LacksStream tracked) : ∃ loop, s.watcher = .idle loop ∧
    s.start tracked =
      pure (.error (.initFailed "change source stream already taken"),
        { s with watcher := .spent loop.source }) := by
  obtain ⟨loop, projects, hwatcher, rfl, htaken⟩ := h
  have hstream : loop.source.takeStream? = none := if_pos htaken
  refine ⟨loop, hwatcher, ?_⟩
  rw [Session.start, hwatcher, Watcher.start, hstream]
  rfl

/-- Whatever else makes a start fail leaves everything as it is. -/
theorem start_of_not_lacksStream (hidle : s.watcher.state = .idle)
    (hfails : (s.start tracked).value.1 = .error e) (h : ¬s.LacksStream tracked) :
    (s.start tracked).value.2 = s := by
  obtain ⟨disk, watcher, waiting, sending, listening, now⟩ := s
  cases watcher with
  | idle loop =>
      cases tracked with
      | error e => rfl
      | ok projects =>
          have hfree : loop.source.taken = false :=
            Bool.eq_false_iff.mpr fun htaken => h ⟨loop, projects, rfl, rfl, htaken⟩
          have hstream : loop.source.takeStream? = some { loop.source with taken := true } :=
            if_neg (by simp [hfree])
          simp only [Session.start, Watcher.start, hstream] at hfails
          cases hfails
  | spent source => cases tracked <;> rfl
  | watching loop => cases hidle
  | draining loop => cases hidle
  | stopped source => cases hidle

/-! ## What a watcher without a loop does -/

theorem start_spent (hspent : s.watcher = .spent source) (projects : List (String × Path)) :
    s.start (.ok projects) = pure (.error (.invalidState .idle), s) := by
  rw [start, hspent]
  obtain ⟨disk, watcher, waiting, sending, listening, now⟩ := s
  cases hspent
  rfl

theorem stop_spent (hspent : s.watcher = .spent source) :
    s.stop.value.1.watcher = .stopped source := by
  rw [stop, hspent]
  rfl

theorem stop_idle (hidle : s.watcher = .idle loop) :
    s.stop.value.1.watcher = .stopped loop.source.close := by
  rw [stop, hidle]
  rfl

/-- A start without the stream is the last one that says so. -/
theorem LacksStream.not_goesOnAs (h : s.LacksStream tracked) :
    ¬(s.start tracked).value.2.GoesOnAs s := by
  obtain ⟨loop, -, hstart⟩ := h.start
  intro hsame
  have hagain := hsame.start tracked
  obtain ⟨-, projects, -, rfl, -⟩ := h
  rw [hstart, Noted.value_pure, start_spent rfl, Noted.value_pure] at hagain
  cases hagain

/-- **When a start in vain changes nothing.**  After an idle watcher failed to start, it goes on as
if it had not been told to if and only if it was not the stream that it lacked.  Then nothing at all
has changed, and a watcher that has its loop still closes the source when it is stopped.  Without
the stream it loses the loop: every later start for which the projects can be listed finds the
watcher in the wrong state, and to stop does not close the source. -/
theorem failed_start_changes_nothing_iff (hidle : s.watcher.state = .idle)
    (hfails : (s.start tracked).value.1 = .error e) :
    let after := (s.start tracked).value.2
    (after.GoesOnAs s ↔ ¬s.LacksStream tracked) ∧
      (¬s.LacksStream tracked → after = s ∧
        ∀ loop, s.watcher = .idle loop →
          after.stop.value.1.watcher = .stopped loop.source.close) ∧
      (s.LacksStream tracked →
        e = .initFailed "change source stream already taken" ∧
        (∀ projects, (after.start (.ok projects)).value = (.error (.invalidState .idle), after)) ∧
        after.stop.value.1.watcher = .stopped s.watcher.source) := by
  intro after
  have hspared : ¬s.LacksStream tracked → after = s := start_of_not_lacksStream hidle hfails
  refine ⟨⟨fun hsame hlacks => hlacks.not_goesOnAs hsame, fun h => ?_⟩, fun h => ?_, fun h => ?_⟩
  · rw [hspared h]
    exact .refl s
  · rw [hspared h]
    exact ⟨rfl, fun loop hwatcher => stop_idle hwatcher⟩
  · obtain ⟨loop, hwatcher, hstart⟩ := h.start
    have hafter : after = { s with watcher := .spent loop.source } := by
      rw [show after = (s.start tracked).value.2 from rfl, hstart, Noted.value_pure]
    rw [hstart, Noted.value_pure] at hfails
    rw [hafter, hwatcher]
    refine ⟨?_, fun projects => ?_, stop_spent rfl⟩
    · cases hfails
      rfl
    · rw [start_spent rfl]
      rfl

/-- A watcher at a source whose stream somebody has taken. -/
def robbed : Session :=
  .make Loop.nestedDisk
    (Watcher.ofEngine Loop.nestedEngine { Source.make (fun _ _ => none) with taken := true }
      Loop.nestedDisk default).value

def oneTracked : Tracked :=
  .ok [("outer", .ofString "w")]

def unreadable : RegistryError :=
  .malformed (.ofString "projects.json")

/-- The second start is not answered as the first one was, and the source stays open. -/
theorem not_goesOnAs_robbed :
    robbed.watcher.state = .idle ∧
      (robbed.start oneTracked).value.1 =
        .error (.initFailed "change source stream already taken") ∧
      ((robbed.start oneTracked).value.2.start oneTracked).value.1 = .error (.invalidState .idle) ∧
      (robbed.start oneTracked).value.2.stop.value.1.watcher.source.closed = false ∧
      ¬(robbed.start oneTracked).value.2.GoesOnAs robbed :=
  ⟨rfl, rfl, rfl, rfl, LacksStream.not_goesOnAs ⟨_, _, rfl, rfl, rfl⟩⟩

theorem failed_start_changes_nothing_iff_unreadable :
    (fresh.watcher.state = .idle ∧
      (fresh.start (.error unreadable)).value.1 = .error (.registryFailed unreadable.message) ∧
      (fresh.start (.error unreadable)).value.2 = fresh) ∧
    robbed.watcher.state = .idle ∧
      (robbed.start oneTracked).value.1 =
        .error (.initFailed "change source stream already taken") ∧
      ∀ projects, ((robbed.start oneTracked).value.2.start (.ok projects)).value.1 =
        .error (.invalidState .idle) := by
  have hunread : (fresh.start (.error unreadable)).value.1 =
      .error (.registryFailed unreadable.message) := rfl
  have hlacks : (robbed.start oneTracked).value.1 =
      .error (.initFailed "change source stream already taken") := rfl
  refine ⟨⟨rfl, hunread, ?_⟩, rfl, hlacks, fun projects => ?_⟩
  · obtain ⟨-, hspared, -⟩ := failed_start_changes_nothing_iff rfl hunread
    have hlisted : ¬fresh.LacksStream (.error unreadable) := by
      rintro ⟨_, _, _, h, _⟩
      cases h
    exact (hspared hlisted).1
  · obtain ⟨-, -, hlost⟩ := failed_start_changes_nothing_iff rfl hlacks
    obtain ⟨-, hstarts, -⟩ := hlost ⟨_, _, rfl, rfl, rfl⟩
    rw [hstarts]

end Session

end TodoIndex
