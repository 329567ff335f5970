import TodoIndex.Toml.Number

/-!
# Dates and times of TOML

A moment is a date, a time, or both; with both there may be an offset.  It is kept as it is
written in its usual form: a `T` between date and time, and no zeros at the end of a second's
fraction.
-/

namespace TodoIndex

namespace Toml

/-- Read a number of two digits in a range. -/
def readTwo (least greatest : Nat) : List Char -> Option (List Char × List Char)
  | a :: b :: s =>
      if isDigit a && isDigit b then
        let n := valueOf 10 [a, b]
        if least <= n && n <= greatest then some ([a, b], s) else none
      else none
  | _ => none

def daysIn (year month : Nat) : Nat :=
  if month = 2 then
    if year % 4 = 0 && (year % 100 != 0 || year % 400 = 0) then 29 else 28
  else if month = 4 || month = 6 || month = 9 || month = 11 then 30
  else 31

/-- Whether a text begins like a date: four digits and a dash. -/
def beginsDate : List Char -> Bool
  | a :: b :: c :: d :: '-' :: _ => [a, b, c, d].all isDigit
  | _ => false

/-- Whether a text begins like a time: two digits and a colon. -/
def beginsTime : List Char -> Bool
  | a :: b :: ':' :: _ => isDigit a && isDigit b
  | _ => false

/-- The rest of a text behind a character that has to be there. -/
def after? (c : Char) : List Char -> Option (List Char)
  | d :: s => if d = c then some s else none
  | [] => none

def readDate (s : List Char) : Option (List Char × List Char) := do
  let year := s.take 4
  let s <- after? '-' (s.drop 4)
  let (month, s) <- readTwo 1 12 s
  let s <- after? '-' s
  let (day, s) <- readTwo 1 (daysIn (valueOf 10 year) (valueOf 10 month)) s
  some (year ++ '-' :: month ++ '-' :: day, s)

/-- A fraction of a second as far as it counts. -/
def shownFraction (digits : List Char) : List Char :=
  match ((digits.take 9).reverse.dropWhile (· = '0')).reverse with
  | [] => []
  | kept => '.' :: kept

def readFraction : List Char -> Option (List Char × List Char)
  | '.' :: s =>
      match s.takeWhile isDigit with
      | [] => none
      | digits => some (shownFraction digits, s.dropWhile isDigit)
  | s => some ([], s)

def readTime (s : List Char) : Option (List Char × List Char) := do
  let (hour, s) <- readTwo 0 23 s
  let s <- after? ':' s
  let (minute, s) <- readTwo 0 59 s
  let s <- after? ':' s
  let (second, s) <- readTwo 0 60 s
  let (fraction, s) <- readFraction s
  some (hour ++ ':' :: minute ++ ':' :: second ++ fraction, s)

/-- Read an offset of so many hours and minutes; there is no negative one of nothing. -/
def readHours (sign : Char) (s : List Char) : Option (List Char × List Char) := do
  let (hour, s) <- readTwo 0 23 s
  let s <- after? ':' s
  let (minute, s) <- readTwo 0 59 s
  let sign := if valueOf 10 (hour ++ minute) = 0 then '+' else sign
  some (sign :: hour ++ ':' :: minute, s)

def readOffset : List Char -> Option (List Char × List Char)
  | 'Z' :: s | 'z' :: s => some (['Z'], s)
  | '+' :: s => readHours '+' s
  | '-' :: s => readHours '-' s
  | s => some ([], s)

def readTimeOfDate (date s : List Char) : Option (List Char × List Char) := do
  let (time, s) <- readTime s
  let (offset, s) <- readOffset s
  some (date ++ 'T' :: time ++ offset, s)

def isDateEnd (c : Char) : Bool :=
  c = 'T' || c = 't' || c = ' '

/-- Read a text that begins like a date. -/
def readFromDate (s : List Char) : Option (List Char × List Char) :=
  match readDate s with
  | some (date, c :: s) =>
      if isDateEnd c && beginsTime s then readTimeOfDate date s else some (date, c :: s)
  | some (date, []) => some (date, [])
  | none => none

def readMomentOrNumber (s : List Char) : Option (Toml × List Char) :=
  if beginsDate s then (readFromDate s).map fun (spelling, rest) => (moment spelling, rest)
  else if beginsTime s then (readTime s).map fun (spelling, rest) => (moment spelling, rest)
  else readNumber s

end Toml

end TodoIndex
