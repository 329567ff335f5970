import TodoIndex.Json.Printer
import TodoIndex.Json.Reader

/-! # Reading back texts and numbers

Every character of a text is read back from the escape it is printed as, and a natural number
from its decimal digits if no further digit, fraction or exponent follows.
-/

namespace TodoIndex.Json

/-! ## Texts -/

theorem hexDigit?_hexDigit : ∀ n < 16, hexDigit? (some (hexDigit n)) = some n := by
  decide

theorem characters?_code {n : Nat} (h : n < 0xD800) (units : List Unit16) :
    characters? (.code n :: units) = (characters? units).map (Char.ofNat n :: ·) := by
  have hlead : isLeadingHalf n = false := by
    simp only [isLeadingHalf, Bool.and_eq_false_iff, decide_eq_false_iff_not]
    omega
  have htrail : isTrailingHalf n = false := by
    simp only [isTrailingHalf, Bool.and_eq_false_iff, decide_eq_false_iff_not]
    omega
  cases units with
  | nil => simp [characters?, hlead, htrail]
  | cons unit units => cases unit <;> simp [characters?, hlead, htrail]

/-- A piece of a text that stands for one character. -/
def StandsFor (unit : Unit16) (c : Char) : Prop :=
  ∀ units, characters? (unit :: units) = (characters? units).map (c :: ·)

theorem standsFor_char (c : Char) : StandsFor (.char c) c :=
  fun _ => rfl

/-- An escaped character is read as one piece that stands for it. -/
theorem readUnits_escape (c : Char) : ∃ unit, StandsFor unit c ∧
    ∀ s, readUnits ((escape c).map some ++ s) =
      (readUnits s).map fun (units, rest) => (unit :: units, rest) := by
  unfold escape
  split
  · subst c
    exact ⟨_, standsFor_char _, fun s => rfl⟩
  rename_i hquote
  split
  · subst c
    exact ⟨_, standsFor_char _, fun s => rfl⟩
  rename_i hback
  split
  · subst c
    exact ⟨_, standsFor_char _, fun s => rfl⟩
  split
  · subst c
    exact ⟨_, standsFor_char _, fun s => rfl⟩
  split
  · subst c
    exact ⟨_, standsFor_char _, fun s => rfl⟩
  split
  · subst c
    exact ⟨_, standsFor_char _, fun s => rfl⟩
  split
  · subst c
    exact ⟨_, standsFor_char _, fun s => rfl⟩
  split
  · -- A control character without a letter of its own.
    rename_i hcontrol
    have hhigh := hexDigit?_hexDigit (c.toNat / 16) (by omega)
    have hlow := hexDigit?_hexDigit (c.toNat % 16) (by omega)
    have hzero : hexDigit? (some '0') = some 0 := by decide
    have hcode : code? (some '0') (some '0') (some (hexDigit (c.toNat / 16)))
        (some (hexDigit (c.toNat % 16))) = some c.toNat := by
      simp only [code?, hhigh, hlow, hzero, Option.bind_eq_bind, Option.bind_some]
      congr 1
      omega
    refine ⟨.code c.toNat, fun units => ?_, fun s => ?_⟩
    · rw [characters?_code (by omega), Char.ofNat_toNat]
    · simp only [List.map_cons, List.map_nil, List.cons_append, List.nil_append]
      rw [readUnits, hcode]
  · rename_i hcontrol
    refine ⟨.char c, standsFor_char c, fun s => ?_⟩
    simp [readUnits, hback, hcontrol]

theorem readUnits_escaped (s : List Char) (rest : Rest) :
    ∃ units, readUnits ((s.flatMap escape).map some ++ some '"' :: rest) = some (units, rest) ∧
      characters? units = some s := by
  induction s with
  | nil => exact ⟨[], rfl, rfl⟩
  | cons c s ih =>
      obtain ⟨units, hread, hunits⟩ := ih
      obtain ⟨unit, hstands, hescape⟩ := readUnits_escape c
      refine ⟨unit :: units, ?_, ?_⟩
      · rw [List.flatMap_cons, List.map_append, List.append_assoc, hescape, hread]
        rfl
      · rw [hstands, hunits]
        rfl

theorem readText_escaped (s : List Char) (rest : Rest) :
    readText ((s.flatMap escape).map some ++ some '"' :: rest) = some (some s, rest) := by
  obtain ⟨units, hread, hunits⟩ := readUnits_escaped s rest
  rw [readText, hread, ← hunits]
  rfl

/-! ## Numbers -/

/-- Nothing that could belong to a number before it. -/
def EndsNumber (rest : Rest) : Prop :=
  ∀ c s, rest = c :: s → isDigit c = false ∧ c ≠ some '.' ∧ c ≠ some 'e' ∧ c ≠ some 'E'

theorem isDigit_of_mem_toDigits {n : Nat} {c : Char} (h : c ∈ Nat.toDigits 10 n) :
    isDigit (some c) = true := by
  have hdigit := Nat.isDigit_of_mem_toDigits (by omega) (by omega) h
  simpa [Char.isDigit, isDigit, Char.le_def] using hdigit

theorem valueOf_toDigits (n : Nat) : valueOf ((Nat.toDigits 10 n).map some) = n := by
  have hfold : ∀ (s : List Char) (init : Nat),
      (s.map some).foldl (fun n c => n * 10 + ((c.getD '0').toNat - '0'.toNat)) init =
        Nat.ofDigitChars 10 s init := by
    intro s
    induction s with
    | nil => simp
    | cons c s ih =>
        intro init
        rw [List.map_cons, List.foldl_cons, ih, Nat.ofDigitChars_cons, Option.getD_some,
          Nat.mul_comm init 10]
  rw [valueOf, hfold, Nat.ofDigitChars_ten_toDigits]

theorem toDigits_of_pos {n : Nat} (h : 0 < n) :
    ∃ c s, Nat.toDigits 10 n = c :: s ∧ c ≠ '0' := by
  induction n using Nat.strongRecOn with
  | ind n ih =>
      by_cases hn : n < 10
      · have hfirst : ∀ m < 10, 0 < m → Nat.digitChar m ≠ '0' := by decide
        exact ⟨_, [], Nat.toDigits_of_lt_base hn, hfirst n hn h⟩
      · have hless : n / 10 < n := by omega
        obtain ⟨c, s, hs, hc⟩ := ih (n / 10) hless (by omega)
        refine ⟨c, s ++ [Nat.digitChar (n % 10)], ?_, hc⟩
        rw [Nat.toDigits_of_base_le (by omega) (by omega), hs, List.cons_append]

/-- Digits do not begin with a zero that counts for nothing. -/
theorem toDigits_cases (n : Nat) : (∃ c, Nat.toDigits 10 n = [c]) ∨
    ∃ c d s, Nat.toDigits 10 n = c :: d :: s ∧ c ≠ '0' := by
  by_cases hn : 0 < n
  · obtain ⟨c, s, hs, hc⟩ := toDigits_of_pos hn
    cases s with
    | nil => exact .inl ⟨c, hs⟩
    | cons d s => exact .inr ⟨c, d, s, hs, hc⟩
  · obtain rfl : n = 0 := by omega
    exact .inl ⟨'0', Nat.toDigits_zero 10⟩

theorem span_digits {digits rest : Rest} (hdigits : ∀ c ∈ digits, isDigit c = true)
    (hrest : EndsNumber rest) :
    (digits ++ rest).takeWhile isDigit = digits ∧ (digits ++ rest).dropWhile isDigit = rest := by
  have hend : rest.takeWhile isDigit = [] ∧ rest.dropWhile isDigit = rest := by
    cases rest with
    | nil => exact ⟨rfl, rfl⟩
    | cons c s => simp [(hrest c s rfl).1]
  constructor
  · rw [List.takeWhile_append_of_pos hdigits, hend.1, List.append_nil]
  · rw [List.dropWhile_append_of_pos hdigits, hend.2]

theorem readInteger_toDigits (n : Nat) {rest : Rest} (hrest : EndsNumber rest) :
    readInteger ((Nat.toDigits 10 n).map some ++ rest) =
      some ((Nat.toDigits 10 n).map some, rest) := by
  have hdigits : ∀ c ∈ (Nat.toDigits 10 n).map some, isDigit c = true := by
    intro c hc
    obtain ⟨d, hd, rfl⟩ := List.mem_map.mp hc
    exact isDigit_of_mem_toDigits hd
  obtain ⟨htake, hdrop⟩ := span_digits hdigits hrest
  unfold readInteger
  rw [htake, hdrop]
  rcases toDigits_cases n with ⟨c, hc⟩ | ⟨c, d, s, hc, hzero⟩
  · rw [hc]
    rfl
  · rw [hc]
    simp [hzero]

theorem readNumber_toDigits (n : Nat) {rest : Rest} (hrest : EndsNumber rest) :
    readNumber false ((Nat.toDigits 10 n).map some ++ rest) = some (.natural n, rest) := by
  have hfraction : skipFraction rest = some (false, rest) := by
    unfold skipFraction
    split
    · exact absurd rfl (hrest _ _ rfl).2.1
    · rfl
  have hexponent : skipExponent rest = some (false, rest) := by
    unfold skipExponent
    split
    · exact absurd rfl (hrest _ _ rfl).2.2.1
    · exact absurd rfl (hrest _ _ rfl).2.2.2
    · rfl
  simp [readNumber, readInteger_toDigits n hrest, hfraction, hexponent, valueOf_toDigits]

end TodoIndex.Json
