/-!
# Quoted texts of TOML

Texts between quotes stand on one line, those between three quotes on any number of lines.
Between double quotes a backslash begins an escape, between single ones it does not.
-/

namespace TodoIndex

namespace Toml

def isBlank (c : Char) : Bool :=
  c = ' ' || c = '\t'

def skipBlanks (s : List Char) : List Char :=
  s.dropWhile isBlank

/-- Whether a character may stand as it is in a text or comment. -/
def isPlain (c : Char) : Bool :=
  c = '\t' || (32 <= c.toNat && c.toNat != 127)

def hexDigit? (c : Char) : Option Nat :=
  if '0' <= c && c <= '9' then some (c.toNat - '0'.toNat)
  else if 'a' <= c && c <= 'f' then some (c.toNat - 'a'.toNat + 10)
  else if 'A' <= c && c <= 'F' then some (c.toNat - 'A'.toNat + 10)
  else none

/-- The number that hexadecimal digits write. -/
def hexValue? (digits : List Char) : Option Nat :=
  digits.foldlM (fun n c => (hexDigit? c).map (n * 16 + ·)) 0

def named? (digits : List Char) : Option Char :=
  match hexValue? digits with
  | some n => if n.isValidChar then some (Char.ofNat n) else none
  | none => none

/-- The character that an escape of one letter stands for. -/
def escaped? : Char -> Option Char
  | 'b' => some '\x08'
  | 't' => some '\t'
  | 'n' => some '\n'
  | 'f' => some '\x0c'
  | 'r' => some '\r'
  | '"' => some '"'
  | '\\' => some '\\'
  | _ => none

def readEscape : List Char -> Option (Char × List Char)
  | 'u' :: s =>
      if s.length < 4 then none else (named? (s.take 4)).map fun c => (c, s.drop 4)
  | 'U' :: s =>
      if s.length < 8 then none else (named? (s.take 8)).map fun c => (c, s.drop 8)
  | c :: s => (escaped? c).map fun c => (c, s)
  | [] => none

theorem length_of_readEscape {s rest : List Char} {c : Char}
    (h : readEscape s = some (c, rest)) : rest.length < s.length := by
  unfold readEscape at h
  split at h
  · split at h
    · simp at h
    · simp only [Option.map_eq_some_iff, Prod.mk.injEq] at h
      obtain ⟨_, _, _, rfl⟩ := h
      simp only [List.length_cons, List.length_drop]
      omega
  · split at h
    · simp at h
    · simp only [Option.map_eq_some_iff, Prod.mk.injEq] at h
      obtain ⟨_, _, _, rfl⟩ := h
      simp only [List.length_cons, List.length_drop]
      omega
  · simp only [Option.map_eq_some_iff, Prod.mk.injEq] at h
    obtain ⟨_, _, _, rfl⟩ := h
    simp
  · simp at h

/-- Read a text on one line behind its opening double quote. -/
def readBasic (s : List Char) : Option (List Char × List Char) :=
  match s with
  | '"' :: s => some ([], s)
  | '\\' :: s =>
      match _h : readEscape s with
      | some (c, rest) => (readBasic rest).map fun (chars, rest) => (c :: chars, rest)
      | none => none
  | c :: s =>
      if isPlain c then (readBasic s).map fun (chars, rest) => (c :: chars, rest) else none
  | [] => none
termination_by s.length
decreasing_by
  · have := length_of_readEscape _h
    simp
    omega
  · simp

/-- Read a text on one line behind its opening single quote. -/
def readLiteral : List Char -> Option (List Char × List Char)
  | '\'' :: s => some ([], s)
  | c :: s =>
      if isPlain c then (readLiteral s).map fun (chars, rest) => (c :: chars, rest) else none
  | [] => none

/-- The rest of the text behind a line end. -/
def afterLineEnd? : List Char -> Option (List Char)
  | '\n' :: s => some s
  | '\r' :: '\n' :: s => some s
  | _ => none

/-- A line end directly behind the opening quotes does not count. -/
def skipFirstLineEnd (s : List Char) : List Char :=
  (afterLineEnd? s).getD s

/-- Whether a backslash hides a line end: only blanks stand between them. -/
def hidesLineEnd (s : List Char) : Bool :=
  (afterLineEnd? (skipBlanks s)).isSome

/-- Skip blanks and line ends. -/
def skipSpace : List Char -> List Char
  | '\r' :: '\n' :: s => skipSpace s
  | c :: s => if isBlank c || c = '\n' then skipSpace s else c :: s
  | [] => []

theorem length_skipSpace_le (s : List Char) : (skipSpace s).length <= s.length := by
  fun_induction skipSpace s <;> simp_all <;> omega

/-- Close a text on several lines: of the quotes at its end three close it, and at most two
belong to it. -/
def closeLong (quote : Char) (s : List Char) : Option (List Char × List Char) :=
  match s.takeWhile (· = quote) with
  | [_, _, _] => some ([], s.drop 3)
  | [_, _, _, _] => some ([quote], s.drop 4)
  | _ :: _ :: _ :: _ :: _ :: _ => some ([quote, quote], s.drop 5)
  | _ => none

/-- Read a text on several lines behind its opening double quotes. -/
def readLongBasic (s : List Char) : Option (List Char × List Char) :=
  match closeLong '"' s with
  | some end_ => some end_
  | none =>
      match s with
      | '\\' :: s =>
          if hidesLineEnd s then readLongBasic (skipSpace s)
          else
            match _h : readEscape s with
            | some (c, rest) => (readLongBasic rest).map fun (chars, rest) => (c :: chars, rest)
            | none => none
      | '\r' :: '\n' :: s =>
          (readLongBasic s).map fun (chars, rest) => ('\n' :: chars, rest)
      | c :: s =>
          if isPlain c || c = '\n' then
            (readLongBasic s).map fun (chars, rest) => (c :: chars, rest)
          else none
      | [] => none
termination_by s.length
decreasing_by
  · have := length_skipSpace_le s
    simp
    omega
  · have := length_of_readEscape _h
    simp
    omega
  all_goals grind

/-- Read a text on several lines behind its opening single quotes. -/
def readLongLiteral (s : List Char) : Option (List Char × List Char) :=
  match closeLong '\'' s with
  | some end_ => some end_
  | none =>
      match s with
      | '\r' :: '\n' :: s =>
          (readLongLiteral s).map fun (chars, rest) => ('\n' :: chars, rest)
      | c :: s =>
          if isPlain c || c = '\n' then
            (readLongLiteral s).map fun (chars, rest) => (c :: chars, rest)
          else none
      | [] => none
termination_by s.length

def readQuoted : List Char -> Option (List Char × List Char)
  | '"' :: '"' :: '"' :: s => readLongBasic (skipFirstLineEnd s)
  | '"' :: s => readBasic s
  | '\'' :: '\'' :: '\'' :: s => readLongLiteral (skipFirstLineEnd s)
  | '\'' :: s => readLiteral s
  | _ => none

/-- Whether a character may stand in a key that is not quoted. -/
def isBare (c : Char) : Bool :=
  ('a' <= c && c <= 'z') || ('A' <= c && c <= 'Z') || ('0' <= c && c <= '9') || c = '-' || c = '_'

def readKeyPart : List Char -> Option (String × List Char)
  | '"' :: s => (readBasic s).map fun (chars, rest) => (String.ofList chars, rest)
  | '\'' :: s => (readLiteral s).map fun (chars, rest) => (String.ofList chars, rest)
  | s =>
      match s.takeWhile isBare with
      | [] => none
      | part => some (String.ofList part, s.dropWhile isBare)

end Toml

end TodoIndex
