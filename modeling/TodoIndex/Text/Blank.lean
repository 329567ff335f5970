/-!
# Blank characters

The Unicode property `White_Space` and the trimming that goes by it.  Trimming
works on lists of characters; the versions on `String` are wrappers.
-/

namespace TodoIndex

namespace Text

/-- The code points with the Unicode property `White_Space`. -/
def isBlank (c : Char) : Bool :=
  let n := c.toNat
  (9 <= n && n <= 13) || n == 32 || n == 0x85 || n == 0xA0 || n == 0x1680 ||
    (0x2000 <= n && n <= 0x200A) || n == 0x2028 || n == 0x2029 || n == 0x202F ||
    n == 0x205F || n == 0x3000

theorem isBlank_of_isWhitespace {c : Char} (h : c.isWhitespace = true) :
    isBlank c = true := by
  simp only [Char.isWhitespace, Bool.or_eq_true, decide_eq_true_eq] at h
  rcases h with ((h | h) | h) | h <;> subst h <;> decide

def trimStart (s : List Char) : List Char :=
  s.dropWhile isBlank

def trimEnd (s : List Char) : List Char :=
  (s.reverse.dropWhile isBlank).reverse

/-- Drop the blanks at both ends. -/
def trim (s : List Char) : List Char :=
  trimEnd (trimStart s)

/-- Drop every leading occurrence of one character. -/
def dropLeading (c : Char) (s : List Char) : List Char :=
  s.dropWhile (· == c)

/-- Drop every trailing occurrence of one character. -/
def dropTrailing (c : Char) (s : List Char) : List Char :=
  (s.reverse.dropWhile (· == c)).reverse

/-- The text after `lead`, if the text begins with it. -/
def stripLead? : (lead s : List Char) -> Option (List Char)
  | [], s => some s
  | _ :: _, [] => none
  | a :: lead, b :: s => if a = b then stripLead? lead s else none

/-- The text before `tail`, if the text ends with it. -/
def stripTail? (tail s : List Char) : Option (List Char) :=
  (stripLead? tail.reverse s.reverse).map List.reverse

theorem stripLead?_eq_some_iff {lead s r : List Char} :
    stripLead? lead s = some r ↔ s = lead ++ r := by
  induction lead generalizing s with
  | nil => simp [stripLead?, eq_comm]
  | cons a lead ih =>
      cases s with
      | nil => simp [stripLead?]
      | cons b s =>
          by_cases h : a = b
          · subst h
            simp [stripLead?, ih]
          · simp [stripLead?, h, Ne.symm h]

theorem stripTail?_eq_some_iff {tail s r : List Char} :
    stripTail? tail s = some r ↔ s = r ++ tail := by
  constructor
  · intro h
    obtain ⟨t, ht, rfl⟩ := Option.map_eq_some_iff.mp h
    have hs := congrArg List.reverse (stripLead?_eq_some_iff.mp ht)
    simpa using hs
  · rintro rfl
    refine Option.map_eq_some_iff.mpr ⟨r.reverse, ?_, by simp⟩
    exact stripLead?_eq_some_iff.mpr (by simp)

/-- Split at the first occurrence of a character, which is dropped. -/
def splitFirst? (c : Char) : List Char -> Option (List Char × List Char)
  | [] => none
  | a :: s =>
      if a = c then some ([], s)
      else (splitFirst? c s).map fun (l, r) => (a :: l, r)

/-- The pieces between the occurrences of a character; always at least one. -/
def splitAll (c : Char) : List Char -> List (List Char)
  | [] => [[]]
  | a :: s =>
      if a = c then [] :: splitAll c s
      else
        match splitAll c s with
        | [] => [[a]]
        | piece :: rest => (a :: piece) :: rest

/-- Lower an ASCII letter; other characters stay. -/
def lowerAscii (s : List Char) : List Char :=
  s.map Char.toLower

def trimString (s : String) : String :=
  String.ofList (trim s.toList)

end Text

end TodoIndex
