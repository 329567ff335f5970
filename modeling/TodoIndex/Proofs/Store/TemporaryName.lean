import Mathlib.Data.List.Nodup
import TodoIndex.Proofs.Text.Utf8
import TodoIndex.Proofs.Files.Paths
import TodoIndex.Store.Saving

/-! # The name of the temporary file

There are more names for temporary files than names that are taken, so the one that is chosen is
not taken; and it is a plain name, which no path spells with anything but itself.
-/

namespace TodoIndex.Store

open Text (Bytes)

theorem temporaryName_injective {n m : Nat} (h : temporaryName n = temporaryName m) : n = m := by
  unfold temporaryName at h
  have hdigits := Text.Utf8.encode_injective (List.append_cancel_left (List.append_cancel_right h))
  calc n = Nat.ofDigitChars 10 (Nat.toDigits 10 n) 0 := Nat.ofDigitChars_ten_toDigits.symm
    _ = Nat.ofDigitChars 10 (Nat.toDigits 10 m) 0 := by rw [hdigits]
    _ = m := Nat.ofDigitChars_ten_toDigits

/-- So many names cannot all be among fewer. -/
theorem exists_unused (taken : List Bytes) (drawn : Nat) :
    ∃ n ≤ taken.length, temporaryName (drawn + n) ∉ taken := by
  refine Classical.byContradiction fun hno => ?_
  have hall : (List.range (taken.length + 1)).map (fun n => temporaryName (drawn + n)) ⊆ taken := by
    intro name hname
    obtain ⟨n, hn, rfl⟩ := List.mem_map.mp hname
    have hle : n ≤ taken.length := by
      have := List.mem_range.mp hn
      omega
    exact Classical.byContradiction fun hfree => hno ⟨n, hle, hfree⟩
  have hnodup : ((List.range (taken.length + 1)).map fun n => temporaryName (drawn + n)).Nodup := by
    refine List.Nodup.map (fun a b hab => ?_) List.nodup_range
    have := temporaryName_injective hab
    omega
  have hlength := hnodup.length_le_of_subset hall
  simp only [List.length_map, List.length_range] at hlength
  omega

theorem unusedName_not_mem (taken : List Bytes) (drawn : Nat) :
    unusedName taken drawn ∉ taken := by
  unfold unusedName
  split
  · rename_i n hfind
    simpa using List.find?_some hfind
  · rename_i hfind
    obtain ⟨n, hle, hfree⟩ := exists_unused taken drawn
    -- All earlier names are taken, so it must be the last one that is free.
    have hn : n = taken.length := by
      refine Classical.byContradiction fun hne => ?_
      have hlt : n < taken.length := by omega
      have := List.find?_eq_none.mp hfind n (List.mem_range.mpr hlt)
      simp [hfree] at this
    rwa [← hn]

theorem unusedName_eq (taken : List Bytes) (drawn : Nat) :
    ∃ n, unusedName taken drawn = temporaryName n := by
  unfold unusedName
  split <;> exact ⟨_, rfl⟩

/-- A digit is one byte. -/
theorem encode_digit {n : Nat} {c : Char} (hc : c ∈ Nat.toDigits 10 n) :
    48 ≤ c.toNat ∧ c.toNat ≤ 57 ∧ String.utf8EncodeChar c = [UInt8.ofNat c.toNat] := by
  have hdigit := Nat.isDigit_of_mem_toDigits (by decide) (by decide) hc
  obtain ⟨hlow, hhigh⟩ : 48 ≤ c.toNat ∧ c.toNat ≤ 57 := Char.isDigit_iff_toNat.mp hdigit
  exact ⟨hlow, hhigh, Text.Utf8.encodeChar_ascii (by omega)⟩

/-- The bytes of a name are digits and those that all names have. -/
theorem of_mem_temporaryName {n : Nat} {b : UInt8} (h : b ∈ temporaryName n) :
    b ∈ Text.bytesOf ".todowatch-" ∨ b ∈ Text.bytesOf ".tmp" ∨ 48 ≤ b.toNat ∧ b.toNat ≤ 57 := by
  simp only [temporaryName, List.mem_append] at h
  rcases h with (h | h) | h
  · exact .inl h
  · simp only [Text.Utf8.encode, List.mem_flatMap] at h
    obtain ⟨c, hc, hbyte⟩ := h
    obtain ⟨hlow, hhigh, hone⟩ := encode_digit hc
    rw [hone, List.mem_singleton] at hbyte
    rw [hbyte, Text.Utf8.toNat_byte (by omega)]
    exact .inr (.inr ⟨hlow, hhigh⟩)
  · exact .inr (.inl h)

theorem slash_not_mem_temporaryName (n : Nat) : Path.slash ∉ temporaryName n := by
  intro hslash
  have := of_mem_temporaryName hslash
  revert this
  decide

theorem zero_not_mem_temporaryName (n : Nat) : 0 ∉ temporaryName n := by
  intro hzero
  have := of_mem_temporaryName hzero
  revert this
  decide

/-- The names get longer with their numbers. -/
theorem length_temporaryName_le {m n : Nat} (h : m ≤ n) :
    (temporaryName m).length ≤ (temporaryName n).length := by
  have hlength : ∀ n, (Text.Utf8.encode (Nat.toDigits 10 n)).length =
      (Nat.toDigits 10 n).length := by
    intro n
    have hones : (Nat.toDigits 10 n).map (fun c => (String.utf8EncodeChar c).length) =
        (Nat.toDigits 10 n).map fun _ => 1 :=
      List.map_congr_left fun c hc => by rw [(encode_digit hc).2.2, List.length_singleton]
    rw [Text.Utf8.encode, List.length_flatMap, hones, List.map_const', List.sum_replicate_nat,
      Nat.mul_one]
  have hdigits : (Nat.toDigits 10 m).length ≤ (Nat.toDigits 10 n).length := by
    have hpos : 0 < (Nat.toDigits 10 n).length := Nat.length_toDigits_pos
    rw [Nat.length_toDigits_le_iff (by decide) hpos]
    have hself := (Nat.length_toDigits_le_iff (by decide) hpos).mp (Nat.le_refl _)
    exact Nat.lt_of_le_of_lt h hself
  simp only [temporaryName, List.length_append, hlength]
  omega

/-- The name that is chosen has the least number of all that are not taken. -/
theorem unusedName_le {taken : List Bytes} {drawn n : Nat}
    (h : temporaryName (drawn + n) ∉ taken) :
    ∃ m ≤ n, unusedName taken drawn = temporaryName (drawn + m) := by
  unfold unusedName
  split
  · rename_i m hfind
    refine ⟨m, Nat.le_of_not_lt fun hlt => ?_, rfl⟩
    have hbefore := (List.find?_range_eq_some.mp hfind).2.2 n hlt
    simp [h] at hbefore
  · rename_i hfind
    refine ⟨taken.length, Nat.le_of_not_lt fun hlt => ?_, rfl⟩
    have hnone := List.find?_eq_none.mp hfind n (List.mem_range.mpr hlt)
    simp [h] at hnone

theorem temporaryName_cons (n : Nat) :
    ∃ rest, temporaryName n = 46 :: 116 :: rest :=
  ⟨_, rfl⟩

end TodoIndex.Store
