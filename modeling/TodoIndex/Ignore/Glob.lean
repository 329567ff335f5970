/-!
# Shell patterns

Patterns for names: `?` stands for any character, a star for any run of characters, a set in
brackets for one character in it, or outside it if it begins with `!`.  Two stars are
allowed only as a whole component and stand for any number of components.
-/

namespace TodoIndex

namespace Glob

/-- An item of a bracket set. -/
inductive Range where
  | one (c : Char)
  | span (first last : Char)
  deriving DecidableEq, Repr, Inhabited

namespace Range

def contains : Range -> Char -> Bool
  | .one a, c => a == c
  | .span first last, c => first.toNat <= c.toNat && c.toNat <= last.toNat

end Range

/-- One piece of a pattern. -/
inductive Piece where
  | literal (c : Char)
  | anyChar
  | within (ranges : List Range)
  | except (ranges : List Range)
  | anyRun
  | anyFolders
  deriving DecidableEq, Repr, Inhabited

/-- What is wrong with a pattern, and at which character. -/
inductive Problem where
  | starRun (position : Nat)
  | lonelyStars (position : Nat)
  | badRange (position : Nat)
  deriving DecidableEq, Repr, Inhabited

namespace Problem

def position : Problem -> Nat
  | .starRun n => n
  | .lonelyStars n => n
  | .badRange n => n

def reason : Problem -> String
  | .starRun _ =>
      let quote := (Char.ofNat 96).toString
      s!"wildcards are either regular {quote}*{quote} or recursive {quote}**{quote}"
  | .lonelyStars _ => "recursive wildcards must form a single path component"
  | .badRange _ => "invalid range pattern"

def message (e : Problem) : String :=
  s!"Pattern syntax error near position {e.position}: {e.reason}"

end Problem

/-- The items of a bracket set. -/
def rangesOf : List Char -> List Range
  | a :: '-' :: b :: s => .span a b :: rangesOf s
  | a :: s => .one a :: rangesOf s
  | [] => []

/-- The contents of a bracket set, which hold at least one character, and what follows it. -/
def splitSet? : List Char -> Option (List Char × List Char)
  | [] => none
  | a :: s =>
      let inside := s.takeWhile (· != ']')
      match s.dropWhile (· != ']') with
      | [] => none
      | _ :: rest => some (a :: inside, rest)

/-- Read a bracket set behind its opening bracket. -/
def readSet? : List Char -> Option (Piece × List Char)
  | '!' :: s => (splitSet? s).map fun (set, rest) => (.except (rangesOf set), rest)
  | s => (splitSet? s).map fun (set, rest) => (.within (rangesOf set), rest)

theorem splitSet?_length {s set rest : List Char} (h : splitSet? s = some (set, rest)) :
    rest.length < s.length := by
  cases s with
  | nil => simp [splitSet?] at h
  | cons a s =>
      simp only [splitSet?] at h
      split at h
      · simp at h
      · rename_i b more hmore
        simp only [Option.some.injEq, Prod.mk.injEq] at h
        have hle : (s.dropWhile (· != ']')).length <= s.length :=
          (List.dropWhile_sublist _).length_le
        rw [hmore] at hle
        simp only [List.length_cons] at hle ⊢
        rw [← h.2]
        omega

theorem readSet?_length {s rest : List Char} {piece : Piece}
    (h : readSet? s = some (piece, rest)) : rest.length < s.length := by
  unfold readSet? at h
  split at h <;>
    obtain ⟨⟨set, more⟩, hsplit, heq⟩ := Option.map_eq_some_iff.mp h <;>
    simp only [Prod.mk.injEq] at heq <;>
    have hlt := splitSet?_length hsplit <;>
    rw [heq.2] at hlt <;>
    simp only [List.length_cons] at * <;>
    omega

/-- Read the pieces of the pattern `s`, which begins at `position` behind `before`. -/
def readPieces (position : Nat) (before : Option Char) (s : List Char) :
    Except Problem (List Piece) :=
  match s with
  | [] => .ok []
  | '?' :: s => (.anyChar :: ·) <$> readPieces (position + 1) (some '?') s
  | '[' :: s =>
      match h : readSet? s with
      | none => .error (.badRange position)
      | some (piece, rest) =>
          have := readSet?_length h
          (piece :: ·) <$> readPieces (position + 1 + (s.length - rest.length)) (some ']') rest
  | '*' :: '*' :: '*' :: _ => .error (.starRun (position + 2))
  | '*' :: '*' :: s =>
      if before.all (· == '/') then
        match s with
        | [] => .ok [.anyFolders]
        | '/' :: s => (.anyFolders :: ·) <$> readPieces (position + 3) (some '/') s
        | _ => .error (.lonelyStars (position + 2))
      else .error (.lonelyStars (position - 1))
  | '*' :: s => (.anyRun :: ·) <$> readPieces (position + 1) (some '*') s
  | c :: s => (.literal c :: ·) <$> readPieces (position + 1) (some c) s
termination_by s.length
decreasing_by all_goals simp_all <;> omega

def ofPattern (pattern : List Char) : Except Problem (List Piece) :=
  readPieces 0 none pattern

/-- Whether a piece that stands for one character stands for `c`. -/
def Piece.accepts : Piece -> Char -> Bool
  | .literal a, c => a == c
  | .anyChar, _ => true
  | .within ranges, c => ranges.any (·.contains c)
  | .except ranges, c => !ranges.any (·.contains c)
  | .anyRun, _ => false
  | .anyFolders, _ => false

/-- The rests of a text behind any number of its characters. -/
def suffixes : List Char -> List (List Char)
  | [] => [[]]
  | c :: s => (c :: s) :: suffixes s

/-- The rests of a text behind each of its slashes, and the empty rest at its end. -/
def folderTails : List Char -> List (List Char)
  | [] => [[]]
  | c :: s => if c = '/' then s :: folderTails s else folderTails s

/-- Whether the pieces of a pattern match the whole of a text. -/
def accepts : List Piece -> List Char -> Bool
  | [], s => s.isEmpty
  | .anyRun :: pieces, s => (suffixes s).any (accepts pieces)
  | .anyFolders :: pieces, s => accepts pieces s || (folderTails s).any (accepts pieces)
  | _ :: _, [] => false
  | piece :: pieces, c :: s => piece.accepts c && accepts pieces s

end Glob

end TodoIndex
