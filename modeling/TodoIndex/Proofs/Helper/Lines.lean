import TodoIndex.Helper.Output
import TodoIndex.Proofs.Text.Trimming

/-! # What counts as a line of a helper

A line of output gives a remark just if what stands in front of a colon is a line number, signs,
blanks and leading zeros included.  What it gives is read off that line alone, so the lines that
give none can be put in and left out.
-/

namespace TodoIndex

namespace Text

theorem splitFirst?_eq_some_iff {c : Char} {s left right : List Char} :
    splitFirst? c s = some (left, right) ↔ s = left ++ c :: right ∧ c ∉ left := by
  induction s generalizing left with
  | nil => simp [splitFirst?]
  | cons a s ih =>
      rw [splitFirst?]
      by_cases ha : a = c
      · subst ha
        cases left with
        | nil => simp [eq_comm]
        | cons b left =>
            simp only [if_true, List.cons_append, List.cons.injEq, List.mem_cons]
            constructor
            · intro h
              cases h
            · intro h
              exact absurd (.inl h.1.1) h.2
      · rw [if_neg ha]
        cases left with
        | nil => simp [ha]
        | cons b left =>
            simp only [Option.map_eq_some_iff, Prod.exists, Prod.mk.injEq, List.cons.injEq,
              List.cons_append, List.mem_cons, not_or]
            constructor
            · intro h
              obtain ⟨left', right', hsplit, ⟨rfl, rfl⟩, rfl⟩ := h
              obtain ⟨hs, hnot⟩ := ih.mp hsplit
              exact ⟨⟨rfl, hs⟩, Ne.symm ha, hnot⟩
            · intro h
              obtain ⟨⟨rfl, hs⟩, -, hnot⟩ := h
              exact ⟨left, right, ih.mpr ⟨hs, hnot⟩, ⟨rfl, rfl⟩, rfl⟩

end Text

namespace Helper

variable {s line : List Char} {n : Nat}

/-! ## Line numbers -/

/-- Decimal digits, behind a plus sign or none, for a number from 1 to 2³² - 1. -/
def IsNumber (s : List Char) (n : Nat) : Prop :=
  ∃ sign digits, s = sign ++ digits ∧ (sign = [] ∨ sign = ['+']) ∧ digits ≠ [] ∧
    (∀ c ∈ digits, c.isDigit = true) ∧ Nat.ofDigitChars 10 digits 0 = n ∧
      1 ≤ n ∧ n ≤ 4294967295

theorem digits?_eq_some_iff : digits? s = some n ↔
    s ≠ [] ∧ (∀ c ∈ s, c.isDigit = true) ∧ Nat.ofDigitChars 10 s 0 = n := by
  have hvalue : s.foldl (fun n c => n * 10 + (c.toNat - '0'.toNat)) 0 =
      Nat.ofDigitChars 10 s 0 := by
    simp only [Nat.ofDigitChars, Nat.mul_comm]
  rw [digits?, hvalue, ← List.all_eq_true]
  by_cases hempty : s = []
  · simp [hempty]
  · by_cases hall : s.all Char.isDigit = true
    · simp [hempty, hall]
    · simp [hempty, hall]

/-- The line number with a value. -/
def ofValue? (n : Nat) : Option UInt32 :=
  if 0 < n && n < UInt32.size then some (UInt32.ofNat n) else none

theorem ofValue?_eq_some_iff {k : UInt32} :
    ofValue? n = some k ↔ n = k.toNat ∧ 1 ≤ n ∧ n ≤ 4294967295 := by
  have hk : k.toNat < 4294967296 := k.toNat_lt
  rw [ofValue?]
  constructor
  · intro h
    split at h
    · rename_i hrange
      simp only [Bool.and_eq_true, decide_eq_true_eq, UInt32.size] at hrange
      cases h
      refine ⟨?_, by omega, by omega⟩
      rw [UInt32.toNat_ofNat_of_lt' hrange.2]
    · cases h
  · intro h
    obtain ⟨rfl, hpos, -⟩ := h
    have hrange : (decide (0 < k.toNat) && decide (k.toNat < UInt32.size)) = true := by
      simp only [Bool.and_eq_true, decide_eq_true_eq, UInt32.size]
      omega
    rw [if_pos hrange, UInt32.ofNat_toNat]

/-- What a text is without a plus sign in front of it. -/
def unsigned (s : List Char) : List Char :=
  match s with
  | '+' :: rest => rest
  | _ => s

theorem exists_sign (s : List Char) :
    ∃ sign, s = sign ++ unsigned s ∧ (sign = [] ∨ sign = ['+']) := by
  unfold unsigned
  split
  · exact ⟨['+'], rfl, .inr rfl⟩
  · exact ⟨[], rfl, .inl rfl⟩

theorem unsigned_digits {sign digits : List Char} (hsign : sign = [] ∨ sign = ['+'])
    (hdigits : ∀ c ∈ digits, c.isDigit = true) : unsigned (sign ++ digits) = digits := by
  rcases hsign with rfl | rfl
  · unfold unsigned
    split
    · rename_i rest hplus
      rw [List.nil_append] at hplus
      exact absurd (hdigits '+' (by simp [hplus])) (by decide)
    · rfl
  · rfl

theorem lineNumber?_eq (s : List Char) :
    lineNumber? s = (digits? (unsigned s)).bind ofValue? := by
  unfold lineNumber?
  dsimp only
  split
  · rename_i n hn
    have hdigits : digits? (unsigned s) = some n := hn
    rw [hdigits]
    rfl
  · rename_i hn
    have hdigits : digits? (unsigned s) = none := hn
    rw [hdigits]
    rfl

theorem lineNumber?_eq_some_iff {k : UInt32} :
    lineNumber? s = some k ↔ IsNumber s k.toNat := by
  rw [lineNumber?_eq, Option.bind_eq_some_iff]
  constructor
  · intro h
    obtain ⟨n, hdigits, hvalue⟩ := h
    obtain ⟨hne, hall, hn⟩ := digits?_eq_some_iff.mp hdigits
    obtain ⟨rfl, hpos, hle⟩ := ofValue?_eq_some_iff.mp hvalue
    obtain ⟨sign, hs, hsign⟩ := exists_sign s
    exact ⟨sign, unsigned s, hs, hsign, hne, hall, hn, hpos, hle⟩
  · intro h
    obtain ⟨sign, digits, rfl, hsign, hne, hall, hn, hpos, hle⟩ := h
    refine ⟨k.toNat, ?_, ofValue?_eq_some_iff.mpr ⟨rfl, hpos, hle⟩⟩
    rw [unsigned_digits hsign hall]
    exact digits?_eq_some_iff.mpr ⟨hne, hall, hn⟩

/-- There is no colon in a line number. -/
theorem IsNumber.not_colon (h : IsNumber s n) : ':' ∉ s := by
  obtain ⟨sign, digits, rfl, hsign, -, hall, -⟩ := h
  intro hcolon
  rcases List.mem_append.mp hcolon with hmem | hmem
  · rcases hsign with rfl | rfl
    · exact absurd hmem (by decide)
    · exact absurd hmem (by decide)
  · exact absurd (hall ':' hmem) (by decide)

/-! ## Lines -/

/-- A line for a number: less the blanks around it, it has a colon, and what stands in front of
that is the number, with blanks around it. -/
def Gives (line : List Char) (n : Nat) : Prop :=
  ∃ left right, Text.trim line = left ++ ':' :: right ∧ IsNumber (Text.trim left) n

/-- The line number of a line of output that makes a remark. -/
def numberOf? (line : List Char) : Option UInt32 :=
  (Text.splitFirst? ':' (Text.trim line)).bind fun (number, _) => lineNumber? (Text.trim number)

/-- The comment and the function's name in a line of output that makes a remark. -/
def textOf (line : List Char) : List Char × Option (List Char) :=
  match Text.splitFirst? ':' (Text.trim line) with
  | some (_, text) => splitText (Text.trim text)
  | none => ([], none)

theorem not_mem_of_trim {c : Char} (hc : Text.isBlank c = false) (h : c ∉ Text.trim s) :
    c ∉ s := by
  obtain ⟨lead, tail, hs, hlead, htail⟩ := Text.exists_pad s
  intro hmem
  rw [hs, List.mem_append, List.mem_append] at hmem
  rcases hmem with (hmem | hmem) | hmem
  · exact absurd (hlead c hmem) (by simp [hc])
  · exact h hmem
  · exact absurd (htail c hmem) (by simp [hc])

/-- The number of a line stands in front of its first colon. -/
theorem gives_iff : Gives line n ↔ ∃ k, numberOf? line = some k ∧ k.toNat = n := by
  constructor
  · intro h
    obtain ⟨left, right, hline, hnumber⟩ := h
    have hcolon : ':' ∉ left := not_mem_of_trim (by decide) hnumber.not_colon
    have hsplit := Text.splitFirst?_eq_some_iff.mpr ⟨hline, hcolon⟩
    have hn : (UInt32.ofNat n).toNat = n := by
      obtain ⟨_, _, -, -, -, -, -, -, hle⟩ := hnumber
      exact UInt32.toNat_ofNat_of_lt' (Nat.lt_succ_of_le hle)
    refine ⟨UInt32.ofNat n, ?_, hn⟩
    rw [numberOf?, hsplit, Option.bind_some]
    exact lineNumber?_eq_some_iff.mpr (by rwa [hn])
  · intro h
    obtain ⟨k, hnumber, rfl⟩ := h
    obtain ⟨⟨left, right⟩, hsplit, hleft⟩ := Option.bind_eq_some_iff.mp hnumber
    exact ⟨left, right, (Text.splitFirst?_eq_some_iff.mp hsplit).1,
      lineNumber?_eq_some_iff.mp hleft⟩

/-- A line that gives a remark. -/
def Accepted (line : List Char) : Prop :=
  ∃ n, Gives line n

theorem accepted_iff : Accepted line ↔ (numberOf? line).isSome = true := by
  rw [Option.isSome_iff_exists]
  constructor
  · intro h
    obtain ⟨n, hgives⟩ := h
    obtain ⟨k, hnumber, -⟩ := gives_iff.mp hgives
    exact ⟨k, hnumber⟩
  · intro h
    obtain ⟨k, hnumber⟩ := h
    exact ⟨k.toNat, gives_iff.mpr ⟨k, hnumber, rfl⟩⟩

instance : DecidablePred Accepted :=
  fun _ => decidable_of_iff _ accepted_iff.symm

/-- The remark of a line for a number. -/
def remarkFor (path : Path) (line : List Char) (number : UInt32) : Remark :=
  .make (String.ofList (textOf line).1) path number ((textOf line).2.map String.ofList)

theorem remark?_readLine (path : Path) (line : List Char) :
    (readLine path line).remark? = (numberOf? line).map (remarkFor path line) := by
  dsimp only [readLine, numberOf?]
  cases hsplit : Text.splitFirst? ':' (Text.trim line) with
  | none => rfl
  | some parts =>
      have htext : textOf line = splitText (Text.trim parts.2) := by rw [textOf, hsplit]
      dsimp only [Option.bind_some]
      cases lineNumber? (Text.trim parts.1) with
      | none => rfl
      | some number =>
          rw [Option.map_some, remarkFor, htext]
          rfl

theorem filterMap_numberOf? {α : Type} (f : List Char → UInt32 → α) (lines : List (List Char)) :
    (lines.filterMap fun line => (numberOf? line).map (f line)) =
      (lines.filter (Accepted ·)).map fun line => f line ((numberOf? line).getD 0) := by
  induction lines with
  | nil => rfl
  | cons line lines ih =>
      cases hnumber : numberOf? line with
      | none =>
          have hnot : ¬ Accepted line := by simp [accepted_iff, hnumber]
          rw [List.filterMap_cons_none (by simp [hnumber]), ih, List.filter_cons_of_neg (by simpa)]
      | some k =>
          have haccepted : Accepted line := by simp [accepted_iff, hnumber]
          rw [List.filterMap_cons, hnumber, ih, List.filter_cons_of_pos (by simpa), List.map_cons,
            hnumber]
          rfl

theorem remarksOf_eq (path : Path) (output : List Char) : remarksOf path output =
    ((Text.lines output).filter (Accepted ·)).map fun line =>
      remarkFor path line ((numberOf? line).getD 0) := by
  rw [remarksOf, readOutput, List.filterMap_map, ← filterMap_numberOf?]
  exact List.filterMap_congr fun line _ => remark?_readLine path line

/-- **The lines of a helper.**  Of any output just the lines for a number give a remark, in their
order.  The remark has that number and the path the output is for, and its comment and function
are those of the line alone; so lines for no number can be put in anywhere, or left out. -/
theorem remarks_of_accepted_lines :
    ∃ (number : List Char → UInt32) (comment : List Char → String)
      (function : List Char → Option String),
      (∀ line, Accepted line → ∀ n, Gives line n ↔ n = (number line).toNat) ∧
      (∀ path output, remarksOf path output =
        ((Text.lines output).filter (Accepted ·)).map fun line =>
          ⟨comment line, path, number line, function line⟩) ∧
      ∀ path output other before skipped after,
        Text.lines output = before ++ after → Text.lines other = before ++ skipped ++ after →
          (∀ line ∈ skipped, ¬ Accepted line) → remarksOf path other = remarksOf path output := by
  refine ⟨_, _, _, ?_, remarksOf_eq, ?_⟩
  · intro line haccepted n
    obtain ⟨k, hnumber⟩ := Option.isSome_iff_exists.mp (accepted_iff.mp haccepted)
    rw [gives_iff, hnumber, Option.getD_some]
    simp [eq_comm]
  · intro path output other before skipped after houtput hother hskipped
    have hnone : skipped.filter (Accepted ·) = [] := by
      simpa using hskipped
    rw [remarksOf_eq, remarksOf_eq, houtput, hother, List.filter_append, List.filter_append,
      List.filter_append, hnone, List.append_nil]

/-- Two lines for a number, and between them lines for none: no colon, nothing at all, zero, a
negative number and one that is too large. -/
def mixedOutput : List Char :=
  "7:a:b\nno colon\n\n0:c\n-3:d\n4294967296:e\n +09 : f [in function g]\r\n".toList

def plainOutput : List Char :=
  "7:a:b\n +09 : f [in function g]".toList

theorem remarks_of_mixed_output :
    remarksOf (.ofString "p") mixedOutput = remarksOf (.ofString "p") plainOutput ∧
      remarksOf (.ofString "p") mixedOutput =
        [⟨"a:b", .ofString "p", 7, none⟩, ⟨"f", .ofString "p", 9, some "g"⟩] ∧
      ∃ number, ∀ n, Gives " +09 : f".toList n ↔ n = number := by
  obtain ⟨number, _, _, hnumber, -, hskipped⟩ := remarks_of_accepted_lines
  refine ⟨?_, by decide +kernel, _, hnumber _ (by decide +kernel)⟩
  exact hskipped _ plainOutput mixedOutput ["7:a:b".toList]
    ["no colon".toList, [], "0:c".toList, "-3:d".toList, "4294967296:e".toList]
    [" +09 : f [in function g]".toList] (by decide +kernel) (by decide +kernel) (by decide +kernel)

end Helper

end TodoIndex
