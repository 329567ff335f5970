import TodoIndex.Shell.Pattern

/-!
# Searching lines

Regular expressions, in their basic and their extended form, and where they match in a line.
-/

namespace TodoIndex

namespace Shell

/-- A regular expression. -/
inductive Regex where
  | empty
  | one (c : Char)
  | any
  | member (set : CharSet)
  | lineStart
  | lineEnd
  | wordStart
  | wordEnd
  | chain (first second : Regex)
  | either (first second : Regex)
  | many (body : Regex)
  deriving Inhabited

namespace Regex

/-- A place in a line: the character before it, and what follows. -/
abbrev Spot := Option Char × List Char

def isWordChar (c : Char) : Bool :=
  ('a' <= c && c <= 'z') || ('A' <= c && c <= 'Z') || ('0' <= c && c <= '9') || c = '_'

def isWordBefore (s : Spot) : Bool :=
  s.1.any isWordChar

def isWordAfter (s : Spot) : Bool :=
  s.2.head?.any isWordChar

/-- Places without repetitions. -/
def distinct (spots : List Spot) : List Spot :=
  spots.foldl (fun kept s => if kept.any (·.2.length = s.2.length) then kept else kept ++ [s]) []

/-- Repeat a step as long as it goes on. -/
def closure (step : Spot -> List Spot) : (fuel : Nat) -> List Spot -> List Spot
  | 0, spots => spots
  | fuel + 1, spots =>
      let next := distinct (spots ++ spots.flatMap step)
      if next.length = spots.length then spots else closure step fuel next

/-- The places where a match that begins at a place can end. -/
def ends : Regex -> Spot -> List Spot
  | .empty, s => [s]
  | .one c, (_, d :: s) => if c = d then [(some d, s)] else []
  | .one _, (_, []) => []
  | .any, (_, d :: s) => [(some d, s)]
  | .any, (_, []) => []
  | .member set, (_, d :: s) => if set.contains d then [(some d, s)] else []
  | .member _, (_, []) => []
  | .lineStart, s => if s.1.isNone then [s] else []
  | .lineEnd, s => if s.2.isEmpty then [s] else []
  | .wordStart, s => if !isWordBefore s && isWordAfter s then [s] else []
  | .wordEnd, s => if isWordBefore s && !isWordAfter s then [s] else []
  | .chain a b, s => distinct ((a.ends s).flatMap b.ends)
  | .either a b, s => distinct (a.ends s ++ b.ends s)
  | .many a, s => closure a.ends (s.2.length + 1) [s]

/-- A regular expression at most so often, or any number of times. -/
def repeated (r : Regex) (least : Nat) : Option Nat -> Regex
  | none => (List.replicate least r).foldr .chain (.many r)
  | some greatest =>
      (List.replicate least r).foldr .chain
        ((List.replicate (greatest - least) r).foldr (fun a b => .either (.chain a b) .empty)
          .empty)

def readBounds (closing : List Char) (s : List Char) : Option (Nat × Option Nat × List Char) :=
  let number (digits : List Char) := digits.foldl (fun n c => n * 10 + (c.toNat - '0'.toNat)) 0
  let isDigit := fun c : Char => '0' <= c && c <= '9'
  let least := s.takeWhile isDigit
  let s := s.dropWhile isDigit
  let (greatest, s) := match s with
    | ',' :: s =>
        let digits := s.takeWhile isDigit
        (if digits = [] then none else some (number digits), s.dropWhile isDigit)
    | s => (some (number least), s)
  if closing.isPrefixOf s then some (number least, greatest, s.drop closing.length) else none

/-- Read the repetitions behind an expression. -/
def readRepeats (extended : Bool) : (fuel : Nat) -> Regex -> List Char ->
    Option (Regex × List Char)
  | 0, _, _ => none
  | fuel + 1, r, s =>
      match extended, s with
      | _, '*' :: s => readRepeats extended fuel (.many r) s
      | true, '+' :: s => readRepeats extended fuel (.chain r (.many r)) s
      | true, '?' :: s => readRepeats extended fuel (.either r .empty) s
      | false, '\\' :: '+' :: s => readRepeats extended fuel (.chain r (.many r)) s
      | false, '\\' :: '?' :: s => readRepeats extended fuel (.either r .empty) s
      | true, '\x7b' :: s =>
          (readBounds ['\x7d'] s).bind fun (least, greatest, s) =>
            readRepeats extended fuel (repeated r least greatest) s
      | false, '\\' :: '\x7b' :: s =>
          (readBounds ['\\', '\x7d'] s).bind fun (least, greatest, s) =>
            readRepeats extended fuel (repeated r least greatest) s
      | _, s => some (r, s)

/-- The sets that letters behind a backslash stand for. -/
def escapedSet? : Char -> Option Regex
  | 'w' => some (.member ⟨false, CharSet.named "alnum" ++ [('_', '_')]⟩)
  | 'W' => some (.member ⟨true, CharSet.named "alnum" ++ [('_', '_')]⟩)
  | 's' => some (.member ⟨false, CharSet.named "space"⟩)
  | 'S' => some (.member ⟨true, CharSet.named "space"⟩)
  | 'b' => some (.either .wordStart .wordEnd)
  | '<' => some .wordStart
  | '>' => some .wordEnd
  | _ => none

mutual

def readEither (extended : Bool) : (fuel : Nat) -> List Char -> Option (Regex × List Char)
  | 0, _ => none
  | fuel + 1, s =>
      match readChain extended true fuel s with
      | none => none
      | some (first, s) =>
          match extended, s with
          | true, '|' :: s =>
              (readEither extended fuel s).map fun (second, s) => (.either first second, s)
          | false, '\\' :: '|' :: s =>
              (readEither extended fuel s).map fun (second, s) => (.either first second, s)
          | _, s => some (first, s)

/-- Read expressions that are to match one after another. -/
def readChain (extended atStart : Bool) : (fuel : Nat) -> List Char -> Option (Regex × List Char)
  | 0, _ => none
  | fuel + 1, s =>
      match readSingle extended atStart fuel s with
      | none => some (.empty, s)
      | some (r, s) =>
          match readRepeats extended (s.length + 1) r s with
          | none => none
          | some (r, s) => (readChain extended false fuel s).map fun (more, s) => (.chain r more, s)

/-- Read an expression that stands for itself. -/
def readSingle (extended atStart : Bool) : (fuel : Nat) -> List Char ->
    Option (Regex × List Char)
  | 0, _ => none
  | fuel + 1, s =>
      match extended, s with
      | _, [] => none
      | true, '|' :: _ => none
      | true, ')' :: _ => none
      | false, '\\' :: '|' :: _ => none
      | false, '\\' :: ')' :: _ => none
      | true, '(' :: s =>
          match readEither extended fuel s with
          | some (r, ')' :: s) => some (r, s)
          | _ => none
      | false, '\\' :: '(' :: s =>
          match readEither extended fuel s with
          | some (r, '\\' :: ')' :: s) => some (r, s)
          | _ => none
      | _, '^' :: s =>
          if extended || atStart then some (.lineStart, s) else some (.one '^', s)
      | _, '$' :: s =>
          if extended || s.isEmpty || s.head? = some '\\' then some (.lineEnd, s)
          else some (.one '$', s)
      | _, '.' :: s => some (.any, s)
      | _, '[' :: s => (CharSet.read? ['^'] s).map fun (set, s) => (.member set, s)
      | _, '\\' :: c :: s => some ((escapedSet? c).getD (.one c), s)
      | _, c :: s => some (.one c, s)

end

def ofText? (extended : Bool) (s : List Char) : Option Regex :=
  match readEither extended (4 * s.length + 8) s with
  | some (r, []) => some r
  | _ => none

/-- The expression that matches a text only. -/
def literal (s : List Char) : Regex :=
  s.foldr (fun c r => .chain (.one c) r) .empty

/-- The longest match that begins at a place: how long it is. -/
def longest? (r : Regex) (s : Spot) : Option Nat :=
  ((r.ends s).map fun e => s.2.length - e.2.length).max?

/-- The matches in a line, each as long as it can be, and not in each other. -/
def matchesFrom (r : Regex) : (fuel : Nat) -> Spot -> List (List Char)
  | 0, _ => []
  | fuel + 1, (before, s) =>
      match r.longest? (before, s), s with
      | some 0, [] => []
      | none, [] => []
      | some (n + 1), s =>
          s.take (n + 1) :: matchesFrom r fuel (s[n]?, s.drop (n + 1))
      | _, c :: s => matchesFrom r fuel (some c, s)

/-- Whether an expression matches somewhere in a line. -/
def matchesIn (r : Regex) : Option Char -> List Char -> Bool
  | before, [] => !(r.ends (before, [])).isEmpty
  | before, c :: s => !(r.ends (before, c :: s)).isEmpty || matchesIn r (some c) s

end Regex

end Shell

end TodoIndex
