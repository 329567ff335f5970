/-!
# Patterns of the shell

Patterns match whole texts: a question mark stands for one character, a star for any number of
them, and a bracket for one of several.  What is quoted stands for itself.
-/

namespace TodoIndex

namespace Shell

/-- Ranges of characters, or all the others. -/
structure CharSet where
  negated : Bool
  ranges : List (Char × Char)
  deriving DecidableEq, Repr, Inhabited

namespace CharSet

def contains (s : CharSet) (c : Char) : Bool :=
  s.ranges.any (fun (a, b) => a <= c && c <= b) != s.negated

def named : String -> List (Char × Char)
  | "alpha" => [('a', 'z'), ('A', 'Z')]
  | "digit" => [('0', '9')]
  | "alnum" => [('a', 'z'), ('A', 'Z'), ('0', '9')]
  | "upper" => [('A', 'Z')]
  | "lower" => [('a', 'z')]
  | "space" => [(' ', ' '), ('\t', '\r')]
  | "blank" => [(' ', ' '), ('\t', '\t')]
  | "punct" => [('!', '/'), (':', '@'), ('[', Char.ofNat 96), ('\x7b', '~')]
  | "xdigit" => [('0', '9'), ('a', 'f'), ('A', 'F')]
  | "cntrl" => [(Char.ofNat 0, '\x1f'), ('\x7f', '\x7f')]
  | "print" => [(' ', '~')]
  | "graph" => [('!', '~')]
  | _ => []

/-- Read the members of a set up to its bracket; a bracket at the begin is a member. -/
def readMembers : (first : Bool) -> (fuel : Nat) -> List Char ->
    Option (List (Char × Char) × List Char)
  | _, 0, _ => none
  | false, _, ']' :: s => some ([], s)
  | _, fuel + 1, '[' :: ':' :: s =>
      let name := String.ofList (s.takeWhile (· != ':'))
      (readMembers false fuel ((s.dropWhile (· != ':')).drop 2)).map fun (more, rest) =>
        (named name ++ more, rest)
  | _, fuel + 1, a :: '-' :: b :: s =>
      if b = ']' then
        (readMembers false fuel ('-' :: b :: s)).map fun (more, rest) => ((a, a) :: more, rest)
      else (readMembers false fuel s).map fun (more, rest) => ((a, b) :: more, rest)
  | _, fuel + 1, a :: s =>
      (readMembers false fuel s).map fun (more, rest) => ((a, a) :: more, rest)
  | _, _, [] => none

/-- Read a set behind its opening bracket. -/
def read? (negations : List Char) (s : List Char) : Option (CharSet × List Char) :=
  let (negated, s) := match s with
    | c :: more => if negations.contains c then (true, more) else (false, c :: more)
    | [] => (false, [])
  (readMembers true (s.length + 1) s).map fun (ranges, rest) => (⟨negated, ranges⟩, rest)

end CharSet

/-- A part of a pattern. -/
inductive PatternSign where
  | one (c : Char)
  | any
  | many
  | member (set : CharSet)
  deriving DecidableEq, Repr, Inhabited

abbrev Pattern := List PatternSign

namespace Pattern

def ofMarked : (fuel : Nat) -> List (Char × Bool) -> Pattern
  | 0, _ => []
  | _, [] => []
  | fuel + 1, (c, true) :: s => .one c :: ofMarked fuel s
  | fuel + 1, ('?', false) :: s => .any :: ofMarked fuel s
  | fuel + 1, ('*', false) :: s => .many :: ofMarked fuel s
  | fuel + 1, ('[', false) :: s =>
      match CharSet.read? ['!', '^'] (s.map Prod.fst) with
      | some (set, rest) => .member set :: ofMarked fuel (s.drop (s.length - rest.length))
      | none => .one '[' :: ofMarked fuel s
  | fuel + 1, (c, false) :: s => .one c :: ofMarked fuel s

def matchesText : Pattern -> List Char -> Bool
  | [], s => s.isEmpty
  | .one c :: p, d :: s => c = d && matchesText p s
  | .any :: p, _ :: s => matchesText p s
  | .member set :: p, d :: s => set.contains d && matchesText p s
  | .many :: p, [] => matchesText p []
  | .many :: p, d :: s => matchesText p (d :: s) || matchesText (.many :: p) s
  | _ :: _, [] => false
termination_by p s => (p.length + s.length)

/-- The ways to split a text in two, the shortest first part first. -/
def splits : List Char -> List (List Char × List Char)
  | [] => [([], [])]
  | c :: s => ([], c :: s) :: (splits s).map fun (a, b) => (c :: a, b)

/-- A text without the begin that a pattern matches. -/
def dropLead (p : Pattern) (longest : Bool) (s : List Char) : List Char :=
  let all := if longest then (splits s).reverse else splits s
  match all.find? fun (lead, _) => p.matchesText lead with
  | some (_, rest) => rest
  | none => s

/-- A text without the end that a pattern matches. -/
def dropTail (p : Pattern) (longest : Bool) (s : List Char) : List Char :=
  let all := if longest then splits s else (splits s).reverse
  match all.find? fun (_, tail) => p.matchesText tail with
  | some (rest, _) => rest
  | none => s

end Pattern

end Shell

end TodoIndex
