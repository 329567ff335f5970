import TodoIndex.Text.Utf8

/-! # Reading back encoded text

Every character is read back from its bytes, whatever follows them; so decoding undoes encoding
in all its forms.
-/

namespace TodoIndex

theorem exists_of_mem_mapM {α β : Type} {read : α → Option β} {xs : List α} {ys : List β} {y : β}
    (h : xs.mapM read = some ys) (hy : y ∈ ys) : ∃ x ∈ xs, read x = some y := by
  induction xs generalizing ys with
  | nil =>
      cases h
      cases hy
  | cons x xs ih =>
      simp only [List.mapM_cons, Option.bind_eq_bind, Option.bind_eq_some_iff] at h
      obtain ⟨first, hfirst, rest, hrest, heq⟩ := h
      cases heq
      rcases List.mem_cons.mp hy with rfl | hy
      · exact ⟨x, List.mem_cons_self, hfirst⟩
      · obtain ⟨z, hz, hread⟩ := ih hrest hy
        exact ⟨z, List.mem_cons_of_mem x hz, hread⟩

namespace Text.Utf8

variable {v : Nat} {s : Bytes}

/-! ## One character, by the number of its bytes -/

theorem toNat_byte {n : Nat} (h : n < 256) : (UInt8.ofNat n).toNat = n := by
  rw [UInt8.toNat_ofNat']
  omega

theorem lt_byte {n : Nat} (h : n < 256) (b : UInt8) : UInt8.ofNat n < b ↔ n < b.toNat := by
  rw [UInt8.lt_iff_toNat_lt, toNat_byte h]

theorem le_byte {n : Nat} (h : n < 256) (b : UInt8) : b ≤ UInt8.ofNat n ↔ b.toNat ≤ n := by
  rw [UInt8.le_iff_toNat_le, toNat_byte h]

theorem byte_le {n : Nat} (h : n < 256) (b : UInt8) : UInt8.ofNat n ≤ b ↔ n ≤ b.toNat := by
  rw [UInt8.le_iff_toNat_le, toNat_byte h]

theorem isContinuation_byte {n : Nat} (h : n < 64) :
    isContinuation (UInt8.ofNat (n + 0x80)) = true := by
  have hn : n + 0x80 < 256 := by omega
  simp only [isContinuation, le_byte hn, byte_le hn, Bool.and_eq_true, decide_eq_true_eq]
  simp only [UInt8.reduceToNat]
  omega

theorem payload_byte {n : Nat} (h : n < 64) : payload (UInt8.ofNat (n + 0x80)) = n := by
  rw [payload, toNat_byte (by omega)]
  omega

theorem headAt_one (h : v < 0x80) : headAt (UInt8.ofNat v) s = .char (Char.ofNat v) 1 := by
  have hv : v < 256 := by omega
  have hlow : UInt8.ofNat v < 0x80 := (lt_byte hv 0x80).mpr h
  unfold headAt
  rw [if_pos hlow, toNat_byte hv]

theorem headAt_two (hlow : 0x80 ≤ v) (hhigh : v < 0x800) :
    headAt (UInt8.ofNat (v / 64 % 32 + 0xC0)) (UInt8.ofNat (v % 64 + 0x80) :: s) =
      .char (Char.ofNat v) 2 := by
  have hb : v / 64 % 32 + 0xC0 < 256 := by omega
  have hr : v % 64 < 64 := by omega
  unfold headAt
  rw [if_neg, if_pos]
  · simp only [isContinuation_byte hr, if_true, payload_byte hr, toNat_byte hb]
    congr 2
    omega
  · simp only [le_byte hb, byte_le hb, Bool.and_eq_true, decide_eq_true_eq, UInt8.reduceToNat]
    omega
  · simp only [lt_byte hb, UInt8.reduceToNat]
    omega

theorem headAt_three (hlow : 0x800 ≤ v) (hhigh : v < 0x10000)
    (hvalid : v < 0xD800 ∨ 0xDFFF < v) :
    headAt (UInt8.ofNat (v / 4096 % 16 + 0xE0))
        (UInt8.ofNat (v / 64 % 64 + 0x80) :: UInt8.ofNat (v % 64 + 0x80) :: s) =
      .char (Char.ofNat v) 3 := by
  have hb : v / 4096 % 16 + 0xE0 < 256 := by omega
  have hm : v / 64 % 64 < 64 := by omega
  have hm' : v / 64 % 64 + 0x80 < 256 := by omega
  have hr : v % 64 < 64 := by omega
  -- The second byte tells the surrogates and what is too short for three bytes.
  have hsecond : secondOfThree (UInt8.ofNat (v / 4096 % 16 + 0xE0))
      (UInt8.ofNat (v / 64 % 64 + 0x80)) = true := by
    simp only [secondOfThree, beq_iff_eq, ← UInt8.toNat_inj, toNat_byte hb, UInt8.reduceToNat]
    split
    · simp only [le_byte hm', byte_le hm', Bool.and_eq_true, decide_eq_true_eq, UInt8.reduceToNat]
      omega
    split
    · simp only [le_byte hm', byte_le hm', Bool.and_eq_true, decide_eq_true_eq, UInt8.reduceToNat]
      omega
    · exact isContinuation_byte hm
  unfold headAt
  rw [if_neg, if_neg, if_pos]
  · simp only [hsecond, isContinuation_byte hr, if_true, payload_byte hr, payload_byte hm,
      toNat_byte hb]
    congr 2
    omega
  · simp only [le_byte hb, byte_le hb, Bool.and_eq_true, decide_eq_true_eq, UInt8.reduceToNat]
    omega
  · simp only [le_byte hb, byte_le hb, Bool.and_eq_true, decide_eq_true_eq, UInt8.reduceToNat]
    omega
  · simp only [lt_byte hb, UInt8.reduceToNat]
    omega

theorem headAt_four (hlow : 0x10000 ≤ v) (hhigh : v < 0x110000) :
    headAt (UInt8.ofNat (v / 262144 % 8 + 0xF0))
        (UInt8.ofNat (v / 4096 % 64 + 0x80) :: UInt8.ofNat (v / 64 % 64 + 0x80) ::
          UInt8.ofNat (v % 64 + 0x80) :: s) =
      .char (Char.ofNat v) 4 := by
  have hb : v / 262144 % 8 + 0xF0 < 256 := by omega
  have hl : v / 4096 % 64 < 64 := by omega
  have hl' : v / 4096 % 64 + 0x80 < 256 := by omega
  have hm : v / 64 % 64 < 64 := by omega
  have hr : v % 64 < 64 := by omega
  have hsecond : secondOfFour (UInt8.ofNat (v / 262144 % 8 + 0xF0))
      (UInt8.ofNat (v / 4096 % 64 + 0x80)) = true := by
    simp only [secondOfFour, beq_iff_eq, ← UInt8.toNat_inj, toNat_byte hb, UInt8.reduceToNat]
    split
    · simp only [le_byte hl', byte_le hl', Bool.and_eq_true, decide_eq_true_eq, UInt8.reduceToNat]
      omega
    split
    · simp only [le_byte hl', byte_le hl', Bool.and_eq_true, decide_eq_true_eq, UInt8.reduceToNat]
      omega
    · exact isContinuation_byte hl
  unfold headAt
  rw [if_neg, if_neg, if_neg, if_pos]
  · simp only [hsecond, isContinuation_byte hm, isContinuation_byte hr, if_true, payload_byte hr,
      payload_byte hm, payload_byte hl, toNat_byte hb]
    congr 2
    omega
  all_goals
    simp only [le_byte hb, byte_le hb, lt_byte hb, Bool.and_eq_true, decide_eq_true_eq,
      UInt8.reduceToNat]
    omega

/-! ## Texts -/

/-- The bytes of a character are read as that character. -/
theorem head_of_char (c : Char) : ∃ b tail, String.utf8EncodeChar c = b :: tail ∧
    ∀ s, headAt b (tail ++ s) = .char c (tail.length + 1) := by
  have hvalid : c.val.toNat < 0xD800 ∨ 0xDFFF < c.val.toNat ∧ c.val.toNat < 0x110000 := c.valid
  have hc : Char.ofNat c.val.toNat = c := Char.ofNat_toNat c
  unfold String.utf8EncodeChar
  dsimp only
  split
  · exact ⟨_, _, rfl, fun s => by rw [List.nil_append, headAt_one (by omega), hc]; rfl⟩
  split
  · exact ⟨_, _, rfl, fun s => by
      rw [List.cons_append, List.nil_append, headAt_two (by omega) (by omega), hc]; rfl⟩
  split
  · exact ⟨_, _, rfl, fun s => by
      rw [List.cons_append, List.cons_append, List.nil_append,
        headAt_three (by omega) (by omega) (by omega), hc]
      rfl⟩
  · exact ⟨_, _, rfl, fun s => by
      rw [List.cons_append, List.cons_append, List.cons_append, List.nil_append,
        headAt_four (by omega) (by omega), hc]
      rfl⟩

theorem headsAfter_append (skipped s : Bytes) :
    headsAfter skipped.length (skipped ++ s) = heads s := by
  induction skipped with
  | nil => rfl
  | cons b skipped ih =>
      rw [List.length_cons, List.cons_append, headsAfter]
      exact ih

theorem heads_encode_append (text : List Char) (s : Bytes) :
    heads (encode text ++ s) = text.map (fun c => .char c c.utf8Size) ++ heads s := by
  induction text with
  | nil => rfl
  | cons c text ih =>
      obtain ⟨b, tail, hc, hhead⟩ := head_of_char c
      have hsize : tail.length + 1 = c.utf8Size := by
        rw [← String.length_utf8EncodeChar, hc, List.length_cons]
      have hbytes : encode (c :: text) ++ s = b :: (tail ++ (encode text ++ s)) := by
        simp [encode, hc]
      rw [hbytes, heads, headsAfter, hhead]
      simp only [Head.length, Nat.add_sub_cancel]
      rw [headsAfter_append, ih, hsize, List.map_cons, List.cons_append]

theorem heads_encode (text : List Char) :
    heads (encode text) = text.map fun c => .char c c.utf8Size := by
  simpa [heads, headsAfter] using heads_encode_append text []

@[simp] theorem signs_encode (text : List Char) : signs (encode text) = text.map some := by
  rw [signs, heads_encode, List.map_map]
  rfl

@[simp] theorem decodeLossy_encode (text : List Char) : decodeLossy (encode text) = text := by
  rw [decodeLossy, heads_encode, List.map_map]
  exact List.map_id _

@[simp] theorem decode?_encode (text : List Char) : decode? (encode text) = some text := by
  rw [decode?, heads_encode]
  induction text with
  | nil => rfl
  | cons c text ih =>
      rw [List.map_cons, List.mapM_cons, ih]
      rfl

theorem encode_injective {text other : List Char} (h : encode text = encode other) :
    text = other := by
  rw [← decodeLossy_encode text, h, decodeLossy_encode]

/-- Every character is at least one byte. -/
theorem length_le_length_encode (text : List Char) : text.length ≤ (encode text).length := by
  induction text with
  | nil => exact Nat.le_refl _
  | cons c text ih =>
      have hbytes : 0 < (String.utf8EncodeChar c).length :=
        List.length_pos_iff.mpr String.utf8EncodeChar_ne_nil
      rw [encode, List.flatMap_cons, List.length_append, ← encode, List.length_cons]
      omega

/-! ## Behind anything -/

theorem not_isContinuation_ascii {a : UInt8} (ha : a < 0x80) (lead : UInt8) :
    isContinuation a = false ∧ secondOfThree lead a = false ∧ secondOfFour lead a = false := by
  have hlow : ∀ low : UInt8, 0x80 ≤ low → decide (low ≤ a) = false := by
    intro low hle
    have hlt : a < low := UInt8.lt_of_lt_of_le ha hle
    exact decide_eq_false (UInt8.not_le.mpr hlt)
  have hcontinuation : isContinuation a = false := by
    unfold isContinuation
    rw [hlow 0x80 (by decide), Bool.false_and]
  refine ⟨hcontinuation, ?_, ?_⟩
  · unfold secondOfThree
    rw [hlow 0xA0 (by decide), hlow 0x80 (by decide), hcontinuation]
    simp
  · unfold secondOfFour
    rw [hlow 0x90 (by decide), hlow 0x80 (by decide), hcontinuation]
    simp

/-- What a byte string begins with ends before an ASCII character in it. -/
theorem length_headAt_le {a : UInt8} (ha : a < 0x80) (b : UInt8) (s t : Bytes) :
    (headAt b (s ++ a :: t)).length ≤ s.length + 1 := by
  obtain ⟨hcontinuation, hthree, hfour⟩ := not_isContinuation_ascii ha b
  -- A head looks at three more bytes at most.
  rcases s with - | ⟨b₁, - | ⟨b₂, - | ⟨b₃, s⟩⟩⟩ <;>
    simp only [headAt, List.nil_append, List.cons_append, List.length_cons, List.length_nil,
      hcontinuation, hthree, hfour, Bool.false_eq_true, if_false] <;>
    (repeat' split) <;> simp only [Head.length, Nat.zero_add, Nat.reduceAdd] <;> omega

/-- What a byte string begins with is decided by the bytes that it spans. -/
theorem headAt_append {b : UInt8} {s t : Bytes} (h : (headAt b (s ++ t)).length ≤ s.length + 1) :
    headAt b (s ++ t) = headAt b s := by
  rcases s with - | ⟨b₁, - | ⟨b₂, - | ⟨b₃, s⟩⟩⟩ <;>
    simp only [headAt, List.nil_append, List.cons_append, List.length_cons, List.length_nil]
      at h ⊢ <;>
    grind [Head.length]

/-- An ASCII character ends what stands in front of it. -/
theorem headsAfter_append_ascii {a : UInt8} (ha : a < 0x80) (s t : Bytes) {skip : Nat}
    (hskip : skip ≤ s.length) :
    headsAfter skip (s ++ a :: t) = headsAfter skip s ++ heads (a :: t) := by
  induction s generalizing skip with
  | nil =>
      obtain rfl : skip = 0 := Nat.le_zero.mp hskip
      rfl
  | cons b s ih =>
      rw [List.cons_append]
      cases skip with
      | succ skip =>
          rw [headsAfter, headsAfter]
          exact ih (Nat.le_of_succ_le_succ hskip)
      | zero =>
          have hlength := length_headAt_le ha b s t
          rw [headsAfter, headsAfter, headAt_append hlength, List.cons_append]
          rw [headAt_append hlength] at hlength
          rw [ih (by omega)]

theorem heads_ascii {a : UInt8} (ha : a < 0x80) (t : Bytes) :
    heads (a :: t) = .char (Char.ofNat a.toNat) 1 :: heads t := by
  have hhead : headAt a t = .char (Char.ofNat a.toNat) 1 := by
    unfold headAt
    exact if_pos ha
  rw [heads, headsAfter, hhead]
  rfl

/-- Around an ASCII character both sides are decoded as if they stood alone. -/
theorem decodeLossy_append_ascii {a : UInt8} (ha : a < 0x80) (s t : Bytes) :
    decodeLossy (s ++ a :: t) = decodeLossy s ++ Char.ofNat a.toNat :: decodeLossy t := by
  have hheads : heads (s ++ a :: t) = heads s ++ heads (a :: t) :=
    headsAfter_append_ascii ha s t (Nat.zero_le _)
  rw [decodeLossy, hheads, heads_ascii ha, List.map_append, List.map_cons]
  rfl

theorem encodeChar_ascii {c : Char} (hc : c.toNat < 0x80) :
    String.utf8EncodeChar c = [UInt8.ofNat c.toNat] := by
  unfold String.utf8EncodeChar
  exact if_pos (Nat.le_of_lt_succ hc)

/-- A text that begins with an ASCII character is read behind whatever bytes. -/
theorem exists_decodeLossy_append {c : Char} (hc : c.toNat < 0x80) (text : List Char) (s : Bytes) :
    ∃ front, decodeLossy (s ++ encode (c :: text)) = front ++ c :: text := by
  have hbytes : encode (c :: text) = UInt8.ofNat c.toNat :: encode text := by
    simp [encode, encodeChar_ascii hc]
  have hascii : UInt8.ofNat c.toNat < 0x80 := by
    rw [UInt8.lt_iff_toNat_lt, toNat_byte (by omega)]
    exact hc
  refine ⟨decodeLossy s, ?_⟩
  rw [hbytes, decodeLossy_append_ascii hascii, decodeLossy_encode, toNat_byte (by omega),
    Char.ofNat_toNat]

/-! ## Places -/

theorem length_headAt_le_length (b : UInt8) (s : Bytes) : (headAt b s).length ≤ s.length + 1 := by
  rcases s with - | ⟨b₁, - | ⟨b₂, - | ⟨b₃, s⟩⟩⟩ <;>
    simp only [headAt, List.length_cons, List.length_nil] <;>
    grind [Head.length]

/-- Between two heads of a byte string is a place in it, and both sides have their heads alone. -/
theorem exists_bytes_of_heads {s : Bytes} {front rest : List Head} (h : heads s = front ++ rest) :
    ∃ u v, s = u ++ v ∧ heads u = front ∧ heads v = rest := by
  induction front generalizing s with
  | nil => exact ⟨[], s, rfl, rfl, h⟩
  | cons head front ih =>
      cases s with
      | nil => cases h
      | cons b s =>
          obtain ⟨rfl, hlater⟩ := List.cons.inj h
          obtain ⟨spanned, others, hs, hlength⟩ : ∃ spanned others, s = spanned ++ others ∧
              spanned.length = (headAt b s).length - 1 := by
            have hle := length_headAt_le_length b s
            refine ⟨_, _, (List.take_append_drop ((headAt b s).length - 1) s).symm, ?_⟩
            rw [List.length_take]
            omega
          have hothers : heads others = front ++ rest := by
            rw [← headsAfter_append spanned, ← hs, hlength]
            exact hlater
          obtain ⟨u, v, rfl, hu, hv⟩ := ih hothers
          have hsplit : s = (spanned ++ u) ++ v := by rw [hs, List.append_assoc]
          -- The head spans nothing behind `spanned`.
          have hhead : headAt b s = headAt b (spanned ++ u) := by
            rw [hsplit] at hlength ⊢
            refine headAt_append ?_
            rw [List.length_append]
            omega
          refine ⟨b :: (spanned ++ u), v, by rw [List.cons_append, ← hsplit], ?_, hv⟩
          rw [heads, headsAfter, ← hhead, ← hlength, headsAfter_append, hu]

/-- Every place in a decoded text is a place in its bytes. -/
theorem exists_bytes_of_decodeLossy {s : Bytes} {front rest : List Char}
    (h : decodeLossy s = front ++ rest) :
    ∃ u v, s = u ++ v ∧ decodeLossy u = front ∧ decodeLossy v = rest := by
  obtain ⟨firsts, others, hheads, rfl, rfl⟩ := List.map_eq_append_iff.mp h
  obtain ⟨u, v, hs, rfl, rfl⟩ := exists_bytes_of_heads hheads
  exact ⟨u, v, hs, rfl, rfl⟩

/-! ## ASCII characters -/

theorem toNat_ofNat (v : Nat) : (Char.ofNat v).toNat = v ∨ (Char.ofNat v).toNat = 0 := by
  rw [Char.ofNat]
  by_cases h : v.isValidChar
  · rw [dif_pos h]
    exact .inl rfl
  · rw [dif_neg h]
    exact .inr rfl

/-- Three bytes are not spent on what two are enough for. -/
theorem le_of_secondOfThree {b b₁ : UInt8} (hb : 0xE0 ≤ b.toNat ∧ b.toNat ≤ 0xEF)
    (h : secondOfThree b b₁ = true) : 0x20 ≤ b.toNat % 16 * 64 + payload b₁ := by
  rw [payload]
  by_cases hlead : b = 0xE0
  · subst hlead
    simp [secondOfThree, UInt8.le_iff_toNat_le] at h
    omega
  · have hne : b.toNat ≠ 0xE0 := fun heq => hlead (UInt8.toNat_inj.mp heq)
    omega

/-- Four bytes are not spent on what three are enough for. -/
theorem le_of_secondOfFour {b b₁ : UInt8} (hb : 0xF0 ≤ b.toNat ∧ b.toNat ≤ 0xF4)
    (h : secondOfFour b b₁ = true) : 0x10 ≤ b.toNat % 8 * 64 + payload b₁ := by
  rw [payload]
  by_cases hlead : b = 0xF0
  · subst hlead
    simp [secondOfFour, UInt8.le_iff_toNat_le] at h
    omega
  · have hne : b.toNat ≠ 0xF0 := fun heq => hlead (UInt8.toNat_inj.mp heq)
    omega

/-- An ASCII character other than the null character is read from its own byte only. -/
theorem eq_of_headAt_ascii {b : UInt8} {s : Bytes} {c : Char} {n : Nat} (hc : c.toNat < 0x80)
    (hzero : c.toNat ≠ 0) (h : headAt b s = .char c n) : b = UInt8.ofNat c.toNat := by
  have hvalue : ∀ {v k : Nat}, Head.char (Char.ofNat v) k = .char c n → v = c.toNat := by
    intro v k heq
    obtain ⟨rfl, -⟩ := Head.char.inj heq
    exact ((toNat_ofNat v).resolve_right hzero).symm
  unfold headAt at h
  split at h
  · rw [← hvalue h, UInt8.ofNat_toNat]
  -- Longer sequences stand for values beyond ASCII.
  exfalso
  simp only [Bool.and_eq_true, decide_eq_true_eq, UInt8.le_iff_toNat_le, UInt8.reduceToNat] at h
  split at h
  · (repeat' split at h) <;> try (cases h; done)
    have hv := hvalue h
    omega
  split at h
  · next hlead =>
      (repeat' split at h) <;> try (cases h; done)
      have hv := hvalue h
      have hle := le_of_secondOfThree hlead ‹secondOfThree b _ = true›
      omega
  split at h
  · next hlead =>
      (repeat' split at h) <;> try (cases h; done)
      have hv := hvalue h
      have hle := le_of_secondOfFour hlead ‹secondOfFour b _ = true›
      omega
  · cases h

theorem mem_of_mem_headsAfter {c : Char} (hc : c.toNat < 0x80) (hzero : c.toNat ≠ 0) {s : Bytes}
    {skip n : Nat} (h : Head.char c n ∈ headsAfter skip s) : UInt8.ofNat c.toNat ∈ s := by
  induction s generalizing skip with
  | nil => cases h
  | cons b s ih =>
      cases skip with
      | succ skip => exact List.mem_cons_of_mem b (ih h)
      | zero =>
          rw [headsAfter, List.mem_cons] at h
          obtain hhead | hlater := h
          · rw [eq_of_headAt_ascii hc hzero hhead.symm]
            exact List.mem_cons_self
          · exact List.mem_cons_of_mem b (ih hlater)

/-- An ASCII character of a text is a byte of it. -/
theorem mem_of_decode? {c : Char} (hc : c.toNat < 0x80) (hzero : c.toNat ≠ 0) {s : Bytes}
    {text : List Char} (hdecode : decode? s = some text) (h : c ∈ text) :
    UInt8.ofNat c.toNat ∈ s := by
  obtain ⟨head, hhead, hchar⟩ := exists_of_mem_mapM hdecode h
  cases head with
  | char d n =>
      cases hchar
      exact mem_of_mem_headsAfter hc hzero hhead
  | malformed n => cases hchar

end Text.Utf8

namespace Text

@[simp] theorem shown_bytesOf (s : String) : shown (bytesOf s) = s := by
  simp [shown, bytesOf_eq]

end Text

end TodoIndex
