import TodoIndex.Syntax.Parser

/-! # Repetition round by round

A repetition keeps what it has read so far in an accumulator.  Its equation without the accumulator
is `rounds_eq`: one round, and then the repetition on what that round has left.
-/

namespace TodoIndex

namespace Syntax

namespace Step

variable {α : Type} {input : List Char} {a b : Step α input}

theorem ext (hvalue : a.value = b.value) (houtput : a.output = b.output) (hrest : a.rest = b.rest) :
    a = b := by
  cases a
  cases b
  cases hvalue
  cases houtput
  cases hrest
  rfl

theorem length_eq (step : Step α input) :
    (Tree.textAll step.output).length + step.rest.length = input.length := by
  rw [← List.length_append, step.whole]

theorem length_rest_le (step : Step α input) : step.rest.length ≤ input.length := by
  have hlength := step.length_eq
  omega

/-- A step whose trees span text leaves a shorter text. -/
theorem length_rest_lt {step : Step α input} (h : Tree.spansTextAny step.output = true) :
    step.rest.length < input.length := by
  have hpos := List.length_pos_iff.mpr (Tree.textAll_ne_nil_of_spansTextAny step.output h)
  have hlength := step.length_eq
  omega

end Step

namespace Parser

variable {α β : Type} {input : List Char}

theorem bind_apply (p : Parser α) (f : α → Parser β) (s : List Char) :
    (p >>= f) s = (p s).bind fun first => (f first.value first.rest).map first.andThen := by
  simp only [bind]
  cases p s with
  | none => rfl
  | some first =>
      rw [Option.bind_some]
      dsimp only
      cases f first.value first.rest <;> rfl

theorem exists_of_bind {p : Parser α} {f : α → Parser β} {step : Step β s}
    (h : (p >>= f) s = some step) : ∃ first, p s = some first ∧
      ∃ second, f first.value first.rest = some second ∧ step = first.andThen second := by
  rw [bind_apply, Option.bind_eq_some_iff] at h
  obtain ⟨first, hfirst, hnext⟩ := h
  obtain ⟨second, hsecond, rfl⟩ := Option.map_eq_some_iff.mp hnext
  exact ⟨first, hfirst, second, hsecond, rfl⟩

theorem bind_of_none {p : Parser α} {s : List Char} (f : α → Parser β) (h : p s = none) :
    (p >>= f) s = none := by
  rw [bind_apply, h, Option.bind_none]

/-- A reader that stays where it is only hands its value on. -/
theorem bind_of_still {p : Parser α} {a : α} {s : List Char} {h : Tree.textAll [] ++ s = s}
    (f : α → Parser β) (hp : p s = some ⟨a, [], s, h⟩) : (p >>= f) s = f a s := by
  rw [bind_apply, hp, Option.bind_some]
  cases f a s <;> rfl

theorem remaining_bind (f : List Char → Parser β) (s : List Char) :
    (remaining >>= f) s = f s s :=
  bind_of_still f rfl

theorem guard_true_bind (f : Unit → Parser β) (s : List Char) :
    (guard true >>= f) s = f () s :=
  bind_of_still f rfl

theorem orElse_of_none {p q : Parser α} {s : List Char} (h : p s = none) :
    orElse p q s = q s := by
  rw [orElse, h]

theorem orElse_of_some {p q : Parser α} {s : List Char} {step : Step α s} (h : p s = some step) :
    orElse p q s = some step := by
  rw [orElse, h]

theorem orElse_congr {p q p' q' : Parser α} {s : List Char} (hp : p s = p' s) (hq : q s = q' s) :
    orElse p q s = orElse p' q' s := by
  rw [orElse, orElse, hp, hq]

/-- Nothing can be left of the empty text. -/
theorem bind_nil {p : Parser α} {f : α → Parser β} (h : ∀ a, f a [] = none) :
    (p >>= f) [] = none := by
  rw [bind_apply, Option.bind_eq_none_iff]
  rintro ⟨value, output, rest, hwhole⟩ _
  obtain rfl : rest = [] := (List.append_eq_nil_iff.mp hwhole).2
  change (f value []).map _ = none
  rw [h, Option.map_none]

/-! ## Repetition -/

/-- What a repetition reads. -/
def rounds (p : Parser Bool) (s : List Char) : Step Unit s :=
  let start : Progress s := ⟨[], s, rfl⟩
  let done := repeatFrom p start
  ⟨(), done.outputs.reverse.flatten, done.rest, done.whole⟩

theorem repeatWhile_apply (p : Parser Bool) (s : List Char) :
    repeatWhile p s = some (rounds p s) := rfl

/-- Whether a repetition goes on after a round. -/
def goesOn (round : Step Bool input) : Bool :=
  round.value && Tree.spansTextAny round.output

theorem length_rest_lt_of_goesOn {round : Step Bool input} (h : goesOn round = true) :
    round.rest.length < input.length :=
  Step.length_rest_lt (Bool.and_eq_true_iff.mp h).2

theorem Progress.whole_next (sofar : Progress input) (round : Step Bool sofar.rest) :
    Tree.textAll (round.output :: sofar.outputs).reverse.flatten ++ round.rest = input := by
  have hround := round.whole
  have hsofar := sofar.whole
  simp only [List.reverse_cons, List.flatten_append, List.flatten_cons, List.flatten_nil,
    List.append_nil, Tree.textAll_append, List.append_assoc, hround, hsofar]

/-- The progress after one more round. -/
def Progress.next (sofar : Progress input) (round : Step Bool sofar.rest) : Progress input :=
  ⟨round.output :: sofar.outputs, round.rest, sofar.whole_next round⟩

theorem repeatFrom_of_none {p : Parser Bool} (sofar : Progress input) (h : p sofar.rest = none) :
    repeatFrom p sofar = sofar := by
  rw [repeatFrom]
  split
  · rfl
  · next round hround => rw [h] at hround; cases hround

theorem repeatFrom_of_some {p : Parser Bool} (sofar : Progress input) {round : Step Bool sofar.rest}
    (h : p sofar.rest = some round) :
    repeatFrom p sofar =
      if goesOn round then repeatFrom p (sofar.next round) else sofar.next round := by
  rw [repeatFrom]
  split
  · next hnone => rw [h] at hnone; cases hnone
  · next other hother =>
      rw [h] at hother
      cases hother
      rfl

/-- A repetition reads from where it is as if it began there. -/
theorem repeatFrom_eq (p : Parser Bool) (sofar : Progress input) :
    (repeatFrom p sofar).outputs.reverse.flatten =
        sofar.outputs.reverse.flatten ++ (rounds p sofar.rest).output ∧
      (repeatFrom p sofar).rest = (rounds p sofar.rest).rest := by
  generalize hn : sofar.rest.length = n
  induction n using Nat.strongRecOn generalizing input with
  | ind n ih =>
      let start : Progress sofar.rest := ⟨[], sofar.rest, rfl⟩
      have hrounds : rounds p sofar.rest = ⟨(), (repeatFrom p start).outputs.reverse.flatten,
        (repeatFrom p start).rest, (repeatFrom p start).whole⟩ := rfl
      rw [hrounds]
      dsimp only
      cases hround : p sofar.rest with
      | none =>
          rw [repeatFrom_of_none sofar hround, repeatFrom_of_none start hround]
          exact ⟨(List.append_nil _).symm, rfl⟩
      | some round =>
          rw [repeatFrom_of_some sofar hround, repeatFrom_of_some start hround]
          cases hgoes : goesOn round with
          | false =>
              refine ⟨?_, rfl⟩
              simp [Progress.next, start]
          | true =>
              have hlt : round.rest.length < n := hn ▸ length_rest_lt_of_goesOn hgoes
              obtain ⟨houtput, hrest⟩ := ih _ hlt (sofar.next round) rfl
              obtain ⟨hfresh, hsame⟩ := ih _ hlt (start.next round) rfl
              simp only [if_true]
              rw [houtput, hrest, hfresh, hsame]
              refine ⟨?_, rfl⟩
              simp [Progress.next, start]

/-- A repetition is one round, and then the repetition on what that round has left. -/
theorem rounds_eq (p : Parser Bool) (s : List Char) :
    rounds p s = match p s with
      | none => ⟨(), [], s, rfl⟩
      | some round =>
          if goesOn round then round.andThen (rounds p round.rest)
          else { round with value := () } := by
  let start : Progress s := ⟨[], s, rfl⟩
  have hrounds : rounds p s = ⟨(), (repeatFrom p start).outputs.reverse.flatten,
    (repeatFrom p start).rest, (repeatFrom p start).whole⟩ := rfl
  rw [hrounds]
  split
  · next hnone =>
      refine Step.ext rfl ?_ ?_ <;> dsimp only <;> rw [repeatFrom_of_none start hnone]
      rfl
  · next round hround =>
      have hfrom := repeatFrom_of_some start hround
      split
      · next hgoes =>
          rw [if_pos hgoes] at hfrom
          obtain ⟨houtput, hrest⟩ := repeatFrom_eq p (start.next round)
          refine Step.ext rfl ?_ ?_
          · dsimp only
            rw [hfrom, houtput]
            simp [Progress.next, start, Step.andThen]
          · dsimp only
            rw [hfrom, hrest]
            rfl
      · next hstops =>
          rw [if_neg hstops] at hfrom
          refine Step.ext rfl ?_ ?_ <;> dsimp only <;> rw [hfrom]
          · simp [Progress.next, start]
          · rfl

theorem rounds_of_none {p : Parser Bool} {s : List Char} (h : p s = none) :
    rounds p s = ⟨(), [], s, by simp⟩ := by
  rw [rounds_eq, h]

theorem many_apply (p : Parser α) (s : List Char) :
    many p s = some (rounds (p >>= fun _ => pure true) s) := rfl

/-- Where a repetition of a reader that never reads nothing has stopped, the reader fails. -/
theorem none_of_rounds {p : Parser Bool} (h : ∀ s step, p s = some step → goesOn step = true)
    (s : List Char) : p (rounds p s).rest = none := by
  induction hlength : s.length using Nat.strongRecOn generalizing s with
  | ind length ih =>
      cases hround : p s with
      | none =>
          rw [rounds_of_none hround]
          exact hround
      | some round =>
          have hgoes := h s round hround
          have hlt := length_rest_lt_of_goesOn hgoes
          have hrest : (rounds p s).rest = (rounds p round.rest).rest := by
            rw [rounds_eq, hround]
            dsimp only
            rw [if_pos hgoes]
            rfl
          rw [hrest]
          exact ih _ (hlength ▸ hlt) round.rest rfl

theorem none_of_many {p : Parser α}
    (h : ∀ s step, p s = some step → Tree.spansTextAny step.output = true) (s : List Char) :
    p (rounds (p >>= fun _ => pure true) s).rest = none := by
  have hround : (p >>= fun _ => pure true) (rounds (p >>= fun _ => pure true) s).rest = none := by
    refine none_of_rounds (fun s round hround => ?_) s
    obtain ⟨first, hfirst, second, hsecond, rfl⟩ := exists_of_bind hround
    cases hsecond
    simp [goesOn, Step.andThen, h s first hfirst]
  generalize (rounds (p >>= fun _ => pure true) s).rest = rest at hround ⊢
  cases hp : p rest with
  | none => rfl
  | some step =>
      rw [bind_apply, hp] at hround
      cases hround

end Parser

end Syntax

end TodoIndex
