import TodoIndex.Proofs.Toml.Scalars
import TodoIndex.Proofs.Toml.Tables

/-! # Reading back values and dotted keys of TOML

Scalars and arrays of scalars are read back from what is printed of them, where a value may end,
and so are dotted keys that are not too long.
-/

namespace TodoIndex.Toml

variable {c : Char} {s t rest : List Char} {value : Toml}

/-! ## Values -/

/-- A value without parts that is written without loss. -/
inductive IsScalar : Toml → Prop where
  | bool (b : Bool) : IsScalar (.bool b)
  | natural (n : Nat) : IsScalar (.integer n)
  | text (s : String) : IsScalar (.text s)

/-- A value that is written on one line without loss: a scalar, or an array of scalars. -/
inductive IsFlat : Toml → Prop where
  | scalar {value : Toml} : IsScalar value → IsFlat value
  | array {items : List Toml} : (∀ item ∈ items, IsScalar item) → IsFlat (.array items)

theorem IsFlat.isTable (h : IsFlat value) : value.isTable = false := by
  cases h with
  | scalar h => cases h <;> rfl
  | array _ => rfl

theorem EndsValue.head?_ne (h : EndsValue rest) : rest.head? ≠ some '"' := by
  obtain ⟨c, s, rfl, hc⟩ := h
  rcases hc with rfl | rfl | rfl <;> simp

theorem IsScalar.readScalar (h : IsScalar value) (hrest : EndsValue rest) :
    readScalar (printValue value ++ rest) = some (value, rest) := by
  cases h with
  | bool b => cases b <;> rfl
  | natural n =>
      have hprint : printValue (.integer n) = Nat.toDigits 10 n := by
        rw [printValue, printInteger, if_neg (by omega), Int.natAbs_natCast]
      rw [hprint, readScalar_toDigits n hrest]
  | text text =>
      have hquoted := readQuoted_printed text hrest.head?_ne
      rw [printValue]
      rw [quoted_append] at hquoted ⊢
      simp only [Toml.readScalar, hquoted, Option.map_some, String.ofList_toList]

/-- The first character of a scalar; it opens nothing. -/
theorem IsScalar.head (h : IsScalar value) : ∃ c tail, printValue value = c :: tail ∧
    IsVisible c ∧ c ≠ '[' ∧ c ≠ '\x7b' ∧ c ≠ ']' := by
  cases h with
  | bool b => cases b <;> exact ⟨_, _, rfl, by decide⟩
  | natural n =>
      obtain ⟨c, tail, hdigits⟩ :=
        List.exists_cons_of_ne_nil (Nat.toDigits_ne_nil (n := n) (b := 10))
      have hdigit : isDigit c = true := isDigit_of_mem_toDigits (n := n) (by simp [hdigits])
      refine ⟨c, tail, ?_, isVisible_of_kind hdigit (by decide), ne_of_kind hdigit (by decide),
        ne_of_kind hdigit (by decide), ne_of_kind hdigit (by decide)⟩
      rw [printValue, printInteger, if_neg (by omega), Int.natAbs_natCast, hdigits]
  | text text => exact ⟨'"', _, rfl, by decide⟩

/-- A scalar is read at any depth. -/
theorem IsScalar.readValue (h : IsScalar value) (depth : Nat) (hrest : EndsValue rest) :
    readValue depth (printValue value ++ rest) = some (value, rest) := by
  rw [← h.readScalar hrest]
  obtain ⟨c, tail, hprint, -, hbracket, hbrace, -⟩ := h.head
  rw [hprint, List.cons_append]
  cases depth with
  | zero =>
      rw [Toml.readValue]
      · exact fun _ h => hbracket (List.cons.inj h).1
      · exact fun _ h => hbrace (List.cons.inj h).1
  | succ depth =>
      rw [Toml.readValue]
      · exact fun _ h => hbracket (List.cons.inj h).1
      · exact fun _ h => hbrace (List.cons.inj h).1

/-! ## Arrays -/

theorem IsVisible.afterLineEnd?_eq_none (h : IsVisible c) (s : List Char) :
    afterLineEnd? (c :: s) = none := by
  rw [afterLineEnd?]
  · exact fun _ heq => h.ne (by simp) (List.cons.inj heq).1
  · exact fun _ heq => h.ne (by simp) (List.cons.inj heq).1

/-- Nothing is skipped before a character that ends no line and begins no comment. -/
theorem IsVisible.skipLines (h : IsVisible c) (fuel : Nat) (s : List Char) :
    skipLines fuel (c :: s) = some (c :: s) := by
  cases fuel with
  | zero => rfl
  | succ fuel =>
      unfold Toml.skipLines
      rw [h.skipBlanks]
      split
      · rename_i heq
        exact absurd (List.cons.inj heq).1 (h.ne (by simp))
      · rw [h.afterLineEnd?_eq_none]

theorem skipLines_blank (fuel : Nat) (s : List Char) :
    skipLines (fuel + 1) (' ' :: s) = skipLines (fuel + 1) s :=
  rfl

theorem readItems_last {read : ValueReader} {fuel : Nat}
    (hskip : skipLines s.length s = some (c :: t)) (hbracket : c ≠ ']')
    (hread : read (c :: t) = some (value, ']' :: rest)) :
    readItems read (fuel + 1) s = some ([value], rest) := by
  have hmark : IsVisible ']' := by decide
  have hbehind := hmark.skipLines (']' :: rest).length rest
  rw [readItems, hskip]
  split
  · rename_i heq
    cases heq
  · rename_i heq
    exact absurd (List.cons.inj (Option.some.inj heq)).1 hbracket
  · rename_i heq
    cases heq
    simp only [hread, hbehind]

theorem readItems_more {read : ValueReader} {fuel : Nat}
    (hskip : skipLines s.length s = some (c :: t)) (hbracket : c ≠ ']')
    (hread : read (c :: t) = some (value, ',' :: rest)) :
    readItems read (fuel + 1) s =
      (readItems read fuel rest).map fun (items, rest) => (value :: items, rest) := by
  have hmark : IsVisible ',' := by decide
  have hbehind := hmark.skipLines (',' :: rest).length rest
  rw [readItems, hskip]
  split
  · rename_i heq
    cases heq
  · rename_i heq
    exact absurd (List.cons.inj (Option.some.inj heq)).1 hbracket
  · rename_i heq
    cases heq
    simp only [hread, hbehind]

theorem printItems_cons (item : Toml) (items : List Toml) (rest : List Char) :
    printItems (item :: items) ++ rest =
      ',' :: ' ' :: (printValue item ++ (printItems items ++ rest)) := by
  simp [printItems]

/-- Between a comma and the next item nothing but a blank is skipped. -/
theorem IsScalar.skipLines_behind (h : IsScalar value) (rest : List Char) :
    skipLines (' ' :: (printValue value ++ rest)).length (' ' :: (printValue value ++ rest)) =
      some (printValue value ++ rest) := by
  obtain ⟨c, tail, hprint, hvisible, -⟩ := h.head
  rw [hprint, List.length_cons, skipLines_blank]
  exact hvisible.skipLines _ _

/-- Items are read one after another; a comma and a blank stand between them. -/
theorem readItems_printed {item : Toml} {items : List Toml} {depth fuel : Nat}
    (hitem : IsScalar item) (hitems : ∀ item ∈ items, IsScalar item) (hfuel : items.length < fuel)
    (hskip : skipLines s.length s = some (printValue item ++ (printItems items ++ ']' :: rest))) :
    readItems (readValue depth) fuel s = some (item :: items, rest) := by
  induction items generalizing item fuel s with
  | nil =>
      obtain ⟨fuel, rfl⟩ := Nat.exists_eq_succ_of_ne_zero (by omega : fuel ≠ 0)
      have hends : EndsValue (']' :: rest) := ⟨_, _, rfl, by decide⟩
      have hread := hitem.readValue depth hends
      obtain ⟨c, tail, hprint, -, -, -, hbracket⟩ := hitem.head
      rw [hprint] at hskip hread
      exact readItems_last hskip hbracket hread
  | cons next items ih =>
      obtain ⟨fuel, rfl⟩ := Nat.exists_eq_succ_of_ne_zero (by omega : fuel ≠ 0)
      obtain ⟨hnext, hitems⟩ := List.forall_mem_cons.mp hitems
      have hends : EndsValue (printItems (next :: items) ++ ']' :: rest) := ⟨_, _, rfl, by decide⟩
      have hread := hitem.readValue depth hends
      obtain ⟨c, tail, hprint, -, -, -, hbracket⟩ := hitem.head
      rw [hprint, printItems_cons] at hskip hread
      have hfewer : items.length < fuel := by simpa using hfuel
      rw [readItems_more hskip hbracket hread, ih hnext hitems hfewer (hnext.skipLines_behind _)]
      rfl

theorem length_le_printItems (items : List Toml) : items.length ≤ (printItems items).length := by
  induction items with
  | nil => exact Nat.le_refl 0
  | cons item items ih =>
      rw [← List.append_nil (printItems (item :: items)), printItems_cons, List.append_nil]
      simp only [List.length_cons, List.length_append]
      omega

/-- A scalar or an array of scalars is read back. -/
theorem IsFlat.readValue (h : IsFlat value) (depth : Nat) (hrest : EndsValue rest) :
    readValue (depth + 1) (printValue value ++ rest) = some (value, rest) := by
  cases h with
  | scalar h => exact h.readValue _ hrest
  | @array items hitems =>
      cases items with
      | nil => rfl
      | cons item items =>
          obtain ⟨hitem, hitems⟩ := List.forall_mem_cons.mp hitems
          have hprint : printValue (.array (item :: items)) ++ rest =
              '[' :: (printValue item ++ (printItems items ++ ']' :: rest)) := by
            simp [printValue]
          have hlength := length_le_printItems items
          obtain ⟨c, tail, hc, hvisible, -⟩ := hitem.head
          rw [hprint, Toml.readValue, readItems_printed hitem hitems]
          · rfl
          · simp only [List.length_append]
            omega
          · rw [hc]
            exact hvisible.skipLines _ _

theorem skipBlanks_printValue (h : IsFlat value) (rest : List Char) :
    skipBlanks (printValue value ++ rest) = printValue value ++ rest := by
  cases h with
  | scalar h =>
      obtain ⟨c, tail, hc, hvisible, -⟩ := h.head
      rw [hc]
      exact hvisible.skipBlanks _
  | @array items _ => cases items <;> rfl

/-! ## Keys -/

/-- Nothing but a dotted key goes on with a dot. -/
def EndsPath (rest : List Char) : Prop :=
  EndsKey rest ∧ ∀ s, skipBlanks rest ≠ '.' :: s

/-- The first character of a key; it opens no header. -/
theorem printKey_begins (key : String) : ∃ c tail, printKey key = c :: tail ∧
    IsVisible c ∧ c ≠ '[' := by
  obtain ⟨c, tail, hc, hbare | rfl⟩ := printKey_head key
  · exact ⟨c, tail, hc, isVisible_of_kind hbare (by decide), ne_of_kind hbare (by decide)⟩
  · exact ⟨'"', tail, hc, by decide⟩

theorem skipBlanks_printKey (key : String) (rest : List Char) :
    skipBlanks (printKey key ++ rest) = printKey key ++ rest := by
  obtain ⟨c, tail, hc, hvisible, -⟩ := printKey_begins key
  rw [hc]
  exact hvisible.skipBlanks _

/-- The parts of a key behind the first one. -/
def printMore (path : List String) : List Char :=
  path.flatMap fun key => '.' :: printKey key

theorem endsKey_printMore (path : List String) (hrest : EndsPath rest) :
    EndsKey (printMore path ++ rest) := by
  cases path with
  | nil => exact hrest.1
  | cons key path =>
      intro c s h
      obtain ⟨rfl, -⟩ := List.cons.inj h
      decide

theorem moreKeyParts_printed {fuel : Nat} (path : List String) (hrest : EndsPath rest)
    (hfuel : path.length ≤ fuel) :
    moreKeyParts fuel (printMore path ++ rest) = some (path, rest) := by
  induction path generalizing fuel with
  | nil =>
      cases fuel with
      | zero => rfl
      | succ fuel =>
          rw [moreKeyParts]
          split
          · rename_i heq
            exact absurd heq (hrest.2 _)
          · rfl
  | cons key path ih =>
      rw [List.length_cons] at hfuel
      obtain ⟨fuel, rfl⟩ := Nat.exists_eq_succ_of_ne_zero (by omega : fuel ≠ 0)
      have hkey := readKeyPart_printed key (endsKey_printMore path hrest)
      have hprint : printMore (key :: path) ++ rest =
          '.' :: (printKey key ++ (printMore path ++ rest)) := by
        simp [printMore]
      have hdot : ∀ s, skipBlanks ('.' :: s) = '.' :: s := fun _ => rfl
      have hmore := ih (by omega : path.length ≤ fuel)
      simp only [hprint, moreKeyParts, hdot, skipBlanks_printKey, hkey, hmore, Option.map_some]

theorem length_le_printMore (path : List String) : path.length ≤ (printMore path).length := by
  induction path with
  | nil => exact Nat.le_refl 0
  | cons key path ih =>
      simp only [printMore, List.flatMap_cons, List.length_append, List.length_cons] at ih ⊢
      omega

theorem intercalate_keys (key : String) (path : List String) :
    List.intercalate ['.'] ((key :: path).map printKey) = printKey key ++ printMore path := by
  induction path generalizing key with
  | nil => simp [printMore, List.intercalate]
  | cons next path ih =>
      have hnext := ih next
      simp only [List.map_cons] at hnext ⊢
      rw [List.intercalate_cons_cons, hnext]
      simp [printMore]

/-- A dotted key is read back. -/
theorem readKey_printed (key : String) (path : List String) (hrest : EndsPath rest)
    (hdeep : path.length < maxDepth) :
    readKey (printKey key ++ (printMore path ++ rest)) = some (key :: path, skipBlanks rest) := by
  have hlength := length_le_printMore path
  unfold readKey
  rw [skipBlanks_printKey, readKeyPart_printed key (endsKey_printMore path hrest)]
  dsimp only
  rw [moreKeyParts_printed path hrest (by rw [List.length_append]; omega)]
  exact if_pos hdeep

end TodoIndex.Toml
