import TodoIndex.Proofs.Json.Scalars
import TodoIndex.Toml.Printer
import TodoIndex.Toml.Reader

/-! # Reading back keys, texts and numbers of TOML

Every key and every text is read back from what is printed of it, and every natural number,
where a line, an item or an array ends behind it.
-/

namespace TodoIndex.Toml

variable {c : Char} {s rest : List Char}

/-! ## Characters -/

/-- A character of one kind is none of another kind. -/
theorem ne_of_kind {kind : Char → Bool} {d : Char} (hc : kind c = true) (hd : kind d = false) :
    c ≠ d := by
  rintro rfl
  rw [hd] at hc
  cases hc

/-- A character that is no blank, ends no line and begins no comment. -/
def IsVisible (c : Char) : Prop :=
  c ∉ [' ', '\t', '#', '\n', '\r']

instance : DecidablePred IsVisible := fun c =>
  inferInstanceAs (Decidable (c ∉ [' ', '\t', '#', '\n', '\r']))

theorem isVisible_of_kind {kind : Char → Bool} (hc : kind c = true)
    (h : [' ', '\t', '#', '\n', '\r'].any kind = false) : IsVisible c :=
  fun hmem => List.any_eq_false.mp h c hmem hc

theorem IsVisible.ne {d : Char} (h : IsVisible c) (hd : d ∈ [' ', '\t', '#', '\n', '\r']) :
    c ≠ d := by
  rintro rfl
  exact h hd

theorem IsVisible.skipBlanks (h : IsVisible c) (s : List Char) :
    skipBlanks (c :: s) = c :: s := by
  have hspace := h.ne (d := ' ') (by simp)
  have htab := h.ne (d := '\t') (by simp)
  exact List.dropWhile_cons_of_neg (by simp [isBlank, hspace, htab])

/-! ## Texts -/

theorem hexDigit?_hexDigit : ∀ n < 16, hexDigit? (hexDigit n) = some n := by
  decide

theorem readBasic_quote (rest : List Char) : readBasic ('"' :: rest) = some ([], rest) := by
  rw [readBasic]

/-- Behind a backslash an escape is read. -/
theorem readBasic_escaped {s more : List Char} (h : readEscape s = some (c, more)) :
    readBasic ('\\' :: s) = (readBasic more).map fun (chars, rest) => (c :: chars, rest) := by
  rw [readBasic]
  split
  · rename_i heq
    rw [h] at heq
    cases heq
    rfl
  · rename_i heq
    rw [h] at heq
    cases heq

theorem readBasic_plain (hplain : isPlain c = true) (hquote : c ≠ '"') (hback : c ≠ '\\')
    (s : List Char) :
    readBasic (c :: s) = (readBasic s).map fun (chars, rest) => (c :: chars, rest) := by
  rw [readBasic]
  · rw [if_pos hplain]
  · exact hquote
  · exact hback

theorem named?_control {n : Nat} (h : n < 128) :
    named? ['0', '0', hexDigit (n / 16), hexDigit (n % 16)] = some (Char.ofNat n) := by
  have hhigh := hexDigit?_hexDigit (n / 16) (by omega)
  have hlow := hexDigit?_hexDigit (n % 16) (by omega)
  have hzero : hexDigit? '0' = some 0 := by decide
  have hvalue : n / 16 * 16 + n % 16 = n := by omega
  have hvalid : n.isValidChar := .inl (by omega)
  simp [named?, hexValue?, hhigh, hlow, hzero, hvalue, hvalid]

/-- An escaped character is read as itself. -/
theorem readBasic_escape (c : Char) (s : List Char) : readBasic (escape c ++ s) =
    (readBasic s).map fun (chars, rest) => (c :: chars, rest) := by
  unfold escape
  split
  · subst c
    exact readBasic_escaped rfl
  rename_i hquote
  split
  · subst c
    exact readBasic_escaped rfl
  rename_i hback
  split
  · subst c
    exact readBasic_escaped rfl
  split
  · subst c
    exact readBasic_escaped rfl
  split
  · subst c
    exact readBasic_escaped rfl
  split
  · -- A control character without a letter of its own.
    rename_i hcontrol
    simp only [Bool.or_eq_true, decide_eq_true_eq] at hcontrol
    have hnamed := named?_control (n := c.toNat) (by omega)
    rw [Char.ofNat_toNat] at hnamed
    refine readBasic_escaped ?_
    simp [readEscape, hnamed]
  · rename_i hcontrol
    simp only [Bool.or_eq_true, decide_eq_true_eq, not_or] at hcontrol
    refine readBasic_plain ?_ hquote hback s
    simp only [isPlain, Bool.or_eq_true, Bool.and_eq_true, decide_eq_true_eq, bne_iff_ne]
    exact .inr ⟨by omega, hcontrol.2⟩

theorem readBasic_printed (text : List Char) (rest : List Char) :
    readBasic (text.flatMap escape ++ '"' :: rest) = some (text, rest) := by
  induction text with
  | nil => exact readBasic_quote rest
  | cons c text ih =>
      rw [List.flatMap_cons, List.append_assoc, readBasic_escape, ih]
      rfl

theorem escape_head (c : Char) : ∃ d tail, escape c = d :: tail ∧ d ≠ '"' := by
  unfold escape
  split
  · exact ⟨_, _, rfl, by decide⟩
  rename_i hquote
  split
  · exact ⟨_, _, rfl, by decide⟩
  split
  · exact ⟨_, _, rfl, by decide⟩
  split
  · exact ⟨_, _, rfl, by decide⟩
  split
  · exact ⟨_, _, rfl, by decide⟩
  split
  · exact ⟨_, _, rfl, by decide⟩
  · exact ⟨c, [], rfl, hquote⟩

theorem quoted_append (text : String) (rest : List Char) :
    quoted text ++ rest = '"' :: (text.toList.flatMap escape ++ '"' :: rest) := by
  simp [quoted]

/-- Only a third quote makes of two quotes the beginning of a long text. -/
theorem readQuoted_basic (h : ∀ t, s = '"' :: '"' :: t → False) :
    readQuoted ('"' :: s) = readBasic s := by
  rw [readQuoted]
  exact h

theorem readQuoted_printed (text : String) (hrest : rest.head? ≠ some '"') :
    readQuoted (quoted text ++ rest) = some (text.toList, rest) := by
  rw [quoted_append, readQuoted_basic, readBasic_printed]
  intro t heq
  cases htext : text.toList with
  | nil =>
      rw [htext] at heq
      cases heq
      exact hrest rfl
  | cons c text =>
      obtain ⟨d, tail, hd, hne⟩ := escape_head c
      rw [htext, List.flatMap_cons, hd] at heq
      exact hne (List.cons.inj heq).1

/-! ## Keys -/

theorem readKeyPart_bare {d : Char} {part : List Char} (hquote : c ≠ '"') (hsingle : c ≠ '\'')
    (hpart : (c :: s).takeWhile isBare = d :: part) :
    readKeyPart (c :: s) = some (String.ofList (d :: part), (c :: s).dropWhile isBare) := by
  rw [readKeyPart]
  · rw [hpart]
  · exact fun _ h => hquote (List.cons.inj h).1
  · exact fun _ h => hsingle (List.cons.inj h).1

/-- A key ends before a character that cannot stand in it. -/
def EndsKey (rest : List Char) : Prop :=
  ∀ c s, rest = c :: s → isBare c = false

theorem span_bare {part : List Char} (hpart : ∀ c ∈ part, isBare c = true)
    (hrest : EndsKey rest) :
    (part ++ rest).takeWhile isBare = part ∧ (part ++ rest).dropWhile isBare = rest := by
  have hend : rest.takeWhile isBare = [] ∧ rest.dropWhile isBare = rest := by
    cases rest with
    | nil => exact ⟨rfl, rfl⟩
    | cons c s => simp [hrest c s rfl]
  constructor
  · rw [List.takeWhile_append_of_pos hpart, hend.1, List.append_nil]
  · rw [List.dropWhile_append_of_pos hpart, hend.2]

/-- A key is printed as it is if it has bare characters alone, and between quotes otherwise. -/
theorem printKey_cases (key : String) :
    (∃ c tail, printKey key = c :: tail ∧ String.ofList (c :: tail) = key ∧
      ∀ d ∈ c :: tail, isBare d = true) ∨ printKey key = quoted key := by
  unfold printKey
  split
  · rename_i hbare
    simp only [Bool.and_eq_true, Bool.not_eq_true', List.all_eq_true] at hbare
    cases hkey : key.toList with
    | nil =>
        have hempty : key = "" := String.toList_injective hkey
        simp [hempty] at hbare
    | cons c tail =>
        exact .inl ⟨c, tail, rfl, by rw [← hkey, String.ofList_toList], hkey ▸ hbare.2⟩
  · exact .inr rfl

theorem readKeyPart_printed (key : String) (hrest : EndsKey rest) :
    readKeyPart (printKey key ++ rest) = some (key, rest) := by
  rcases printKey_cases key with ⟨c, tail, hprint, hback, hbare⟩ | hprint
  · obtain ⟨htake, hdrop⟩ := span_bare hbare hrest
    have hfirst := hbare c List.mem_cons_self
    rw [List.cons_append] at htake hdrop
    rw [hprint, List.cons_append, readKeyPart_bare (ne_of_kind hfirst (by decide))
      (ne_of_kind hfirst (by decide)) htake, hdrop, hback]
  · rw [hprint, quoted_append]
    simp only [readKeyPart, readBasic_printed, Option.map_some, String.ofList_toList]

/-- What is printed of a key begins with a bare character or a quote. -/
theorem printKey_head (key : String) : ∃ c tail, printKey key = c :: tail ∧
    (isBare c = true ∨ c = '"') := by
  rcases printKey_cases key with ⟨c, tail, hprint, -, hbare⟩ | hprint
  · exact ⟨c, tail, hprint, .inl (hbare c List.mem_cons_self)⟩
  · exact ⟨'"', _, hprint, .inr rfl⟩

/-! ## Numbers -/

/-- A value ends before a line end, a comma or a bracket. -/
def EndsValue (rest : List Char) : Prop :=
  ∃ c s, rest = c :: s ∧ (c = '\n' ∨ c = ',' ∨ c = ']')

theorem isDigit_of_mem_toDigits {n : Nat} (h : c ∈ Nat.toDigits 10 n) : isDigit c = true := by
  have hdigit := Nat.isDigit_of_mem_toDigits (by omega) (by omega) h
  simpa [Char.isDigit, isDigit, Char.le_def] using hdigit

theorem valueOf_toDigits (n : Nat) : valueOf 10 (Nat.toDigits 10 n) = n := by
  have hfold : ∀ (s : List Char), (∀ c ∈ s, isDigit c = true) → ∀ init : Nat,
      s.foldl (fun n c => n * 10 + digitValue c) init = Nat.ofDigitChars 10 s init := by
    intro s hs
    induction s with
    | nil => simp
    | cons c s ih =>
        intro init
        obtain ⟨hc, hs⟩ := List.forall_mem_cons.mp hs
        rw [List.foldl_cons, ih hs, Nat.ofDigitChars_cons, digitValue, if_pos hc,
          Nat.mul_comm init 10]
  rw [valueOf, hfold _ (fun c hc => isDigit_of_mem_toDigits hc), Nat.ofDigitChars_ten_toDigits]

theorem moreDigits_digits {digits : List Char} (hdigits : ∀ c ∈ digits, isDigit c = true)
    (hrest : EndsValue rest) : moreDigits isDigit (digits ++ rest) = some (digits, rest) := by
  induction digits with
  | nil =>
      obtain ⟨c, s, rfl, hc⟩ := hrest
      have hend : isDigit c = false ∧ c ≠ '_' := by
        rcases hc with rfl | rfl | rfl <;> decide
      rw [List.nil_append, moreDigits]
      · rw [hend.1]
        rfl
      · exact fun h _ => hend.2 h
      · exact fun _ _ h _ => hend.2 h
  | cons c digits ih =>
      obtain ⟨hc, hdigits⟩ := List.forall_mem_cons.mp hdigits
      have hline : c ≠ '_' := ne_of_kind hc (by decide)
      rw [List.cons_append, moreDigits]
      · rw [if_pos hc, ih hdigits]
        rfl
      · exact fun h _ => hline h
      · exact fun _ _ h _ => hline h

theorem readWhole_toDigits (n : Nat) (hrest : EndsValue rest) :
    readWhole (Nat.toDigits 10 n ++ rest) = some (Nat.toDigits 10 n, rest) := by
  have hall : ∀ c ∈ Nat.toDigits 10 n, isDigit c = true := fun c hc => isDigit_of_mem_toDigits hc
  have hread : ∀ {c tail}, Nat.toDigits 10 n = c :: tail → c ≠ '0' →
      readWhole (c :: (tail ++ rest)) = some (c :: tail, rest) := by
    intro c tail hdigits hzero
    rw [hdigits] at hall
    obtain ⟨hc, htail⟩ := List.forall_mem_cons.mp hall
    rw [readWhole]
    · rw [someDigits, if_pos hc, moreDigits_digits htail hrest]
      rfl
    · exact fun _ h => hzero (List.cons.inj h).1
  rcases Json.toDigits_cases n with ⟨c, hc⟩ | ⟨c, d, tail, hc, hzero⟩
  · by_cases hzero : c = '0'
    · subst hzero
      rw [hc]
      rfl
    · rw [hc]
      exact hread hc hzero
  · rw [hc]
    exact hread hc hzero

theorem readBehindWhole_end (whole : List Char) (hrest : EndsValue rest) :
    readBehindWhole false whole rest = some (.integer (valueOf 10 whole), rest) := by
  obtain ⟨c, s, rfl, hc⟩ := hrest
  rcases hc with rfl | rfl | rfl <;> rfl

/-- Digits that are no mark of another base are read as a decimal number. -/
theorem readNumber_digits {tail : List Char} (hdigit : isDigit c = true)
    (hmark : c = '0' → ∀ d t, tail = d :: t → d ≠ 'x' ∧ d ≠ 'o' ∧ d ≠ 'b') :
    readNumber (c :: tail) =
      (readWhole (c :: tail)).bind fun (whole, rest) => readBehindWhole false whole rest := by
  have hletter : ∀ d, isDigit d = false → c ≠ d := fun d => ne_of_kind hdigit
  have hsign : readSign (c :: tail) = (false, c :: tail) := by
    rw [readSign]
    · exact fun _ h => hletter '-' rfl (List.cons.inj h).1
    · exact fun _ h => hletter '+' rfl (List.cons.inj h).1
  have hbase : ∀ d s, c :: tail = '0' :: d :: s → d ≠ 'x' ∧ d ≠ 'o' ∧ d ≠ 'b' :=
    fun d s h => hmark (List.cons.inj h).1 d s (List.cons.inj h).2
  rw [readNumber, hsign]
  · split
    · rename_i heq
      exact absurd (List.cons.inj (Prod.mk.inj heq).2).1 (hletter 'i' rfl)
    · rename_i heq
      exact absurd (List.cons.inj (Prod.mk.inj heq).2).1 (hletter 'n' rfl)
    · rename_i heq
      cases heq
      rfl
  · exact fun s h => (hbase 'x' s h).1 rfl
  · exact fun s h => (hbase 'o' s h).2.1 rfl
  · exact fun s h => (hbase 'b' s h).2.2 rfl

theorem readNumber_toDigits (n : Nat) (hrest : EndsValue rest) :
    readNumber (Nat.toDigits 10 n ++ rest) = some (.integer n, rest) := by
  have hwhole := readWhole_toDigits n hrest
  obtain ⟨c, tail, hdigits⟩ := List.exists_cons_of_ne_nil (Nat.toDigits_ne_nil (n := n) (b := 10))
  have hdigit : isDigit c = true := isDigit_of_mem_toDigits (n := n) (by simp [hdigits])
  have hmark : c = '0' → ∀ d t, tail ++ rest = d :: t → d ≠ 'x' ∧ d ≠ 'o' ∧ d ≠ 'b' := by
    rintro rfl d t heq
    have htail : tail = [] := by
      rcases Json.toDigits_cases n with ⟨c, hc⟩ | ⟨c, d, more, hc, hzero⟩
      · rw [hc] at hdigits
        exact (List.cons.inj hdigits).2.symm
      · rw [hc] at hdigits
        exact absurd (List.cons.inj hdigits).1 hzero
    obtain ⟨e, s, rfl, he⟩ := hrest
    rw [htail] at heq
    obtain rfl := (List.cons.inj heq).1
    rcases he with rfl | rfl | rfl <;> decide
  rw [hdigits, List.cons_append] at hwhole ⊢
  rw [readNumber_digits hdigit hmark, hwhole, ← hdigits]
  change readBehindWhole false _ rest = _
  rw [readBehindWhole_end _ hrest, valueOf_toDigits]

/-- No digits before the end of a value are those of a date. -/
theorem not_beginsDate {digits : List Char} (hdigits : ∀ c ∈ digits, isDigit c = true)
    (hrest : EndsValue rest) : beginsDate (digits ++ rest) = false := by
  obtain ⟨e, s, rfl, he⟩ := hrest
  have hend : isDigit e = false ∧ e ≠ '-' := by
    rcases he with rfl | rfl | rfl <;> decide
  unfold beginsDate
  split
  · rename_i heq
    rcases digits with _ | ⟨a, _ | ⟨b, _ | ⟨c, _ | ⟨d, _ | ⟨f, more⟩⟩⟩⟩⟩ <;>
      simp only [List.nil_append, List.cons_append, List.cons.injEq] at heq
    · simp [← heq.1, hend.1]
    · simp [← heq.2.1, hend.1]
    · simp [← heq.2.2.1, hend.1]
    · simp [← heq.2.2.2.1, hend.1]
    · exact absurd heq.2.2.2.2.1 hend.2
    · have hdash := hdigits f (by simp)
      rw [heq.2.2.2.2.1] at hdash
      cases hdash
  · rfl

theorem not_beginsTime {digits : List Char} (hdigits : ∀ c ∈ digits, isDigit c = true)
    (hrest : EndsValue rest) : beginsTime (digits ++ rest) = false := by
  obtain ⟨e, s, rfl, he⟩ := hrest
  have hend : isDigit e = false ∧ e ≠ ':' := by
    rcases he with rfl | rfl | rfl <;> decide
  unfold beginsTime
  split
  · rename_i heq
    rcases digits with _ | ⟨a, _ | ⟨b, _ | ⟨c, more⟩⟩⟩ <;>
      simp only [List.nil_append, List.cons_append, List.cons.injEq] at heq
    · simp [← heq.1, hend.1]
    · simp [← heq.2.1, hend.1]
    · exact absurd heq.2.2.1 hend.2
    · have hcolon := hdigits c (by simp)
      rw [heq.2.2.1] at hcolon
      cases hcolon
  · rfl

theorem readScalar_toDigits (n : Nat) (hrest : EndsValue rest) :
    readScalar (Nat.toDigits 10 n ++ rest) = some (.integer n, rest) := by
  have hall : ∀ c ∈ Nat.toDigits 10 n, isDigit c = true := fun c hc => isDigit_of_mem_toDigits hc
  have hnumber : readMomentOrNumber (Nat.toDigits 10 n ++ rest) = some (.integer n, rest) := by
    rw [readMomentOrNumber, not_beginsDate hall hrest, not_beginsTime hall hrest]
    exact readNumber_toDigits n hrest
  rw [← hnumber]
  obtain ⟨c, tail, hdigits⟩ := List.exists_cons_of_ne_nil (Nat.toDigits_ne_nil (n := n) (b := 10))
  have hother : ∀ d, isDigit d = false → c ≠ d :=
    fun d => ne_of_kind (hall c (by simp [hdigits]))
  rw [hdigits, List.cons_append, readScalar]
  · exact fun _ h => hother '"' rfl (List.cons.inj h).1
  · exact fun _ h => hother '\'' rfl (List.cons.inj h).1
  · exact fun _ h => hother 't' rfl (List.cons.inj h).1
  · exact fun _ h => hother 'f' rfl (List.cons.inj h).1

end TodoIndex.Toml
