import TodoIndex.Shell.Arithmetic

/-!
# Printed texts

What `echo` and `printf` print: escapes behind backslashes, and values in the places that a
format has for them.
-/

namespace TodoIndex

namespace Shell

namespace Printing

def isOctal (c : Char) : Bool :=
  '0' <= c && c <= '7'

def octal (digits : List Char) : Char :=
  Char.ofNat (digits.foldl (fun n c => n * 8 + (c.toNat - '0'.toNat)) 0 % 256)

/-- The character that an escape of one letter stands for. -/
def escaped? : Char -> Option Char
  | 'a' => some '\x07'
  | 'b' => some '\x08'
  | 'f' => some '\x0c'
  | 'n' => some '\n'
  | 'r' => some '\r'
  | 't' => some '\t'
  | 'v' => some '\x0b'
  | '\\' => some '\\'
  | _ => none

/-- What an escape behind its backslash prints, if it is one; with `zero` octal digits stand
behind a zero. -/
def readEscape (zero : Bool) : List Char -> Option (Char × List Char)
  | [] => none
  | c :: s =>
      if zero && c = '0' then
        let digits := (s.take 3).takeWhile isOctal
        some (octal digits, s.drop digits.length)
      else if !zero && isOctal c then
        let digits := ((c :: s).take 3).takeWhile isOctal
        some (octal digits, (c :: s).drop digits.length)
      else (escaped? c).map fun c => (c, s)

/-- A text with its escapes, and whether printing goes on behind it. -/
def escapes : (fuel : Nat) -> List Char -> List Char × Bool
  | 0, _ => ([], true)
  | _, [] => ([], true)
  | _, '\\' :: 'c' :: _ => ([], false)
  | fuel + 1, '\\' :: s =>
      match readEscape true s with
      | some (c, rest) =>
          let (more, goesOn) := escapes fuel rest
          (c :: more, goesOn)
      | none =>
          let (more, goesOn) := escapes fuel s
          ('\\' :: more, goesOn)
  | fuel + 1, c :: s =>
      let (more, goesOn) := escapes fuel s
      (c :: more, goesOn)

def echo (arguments : List (List Char)) : List Char :=
  let (ends, arguments) := match arguments with
    | ['-', 'n'] :: more => (false, more)
    | more => (true, more)
  let line := List.intercalate [' '] arguments
  let (printed, goesOn) := escapes (line.length + 1) line
  if ends && goesOn then printed ++ ['\n'] else printed

/-- A place for a value in a format. -/
structure Slot where
  left : Bool
  zeros : Bool
  plus : Bool
  width : Nat
  precision : Option Nat
  letter : Char

def number (digits : List Char) : Nat :=
  digits.foldl (fun n c => n * 10 + (c.toNat - '0'.toNat)) 0

/-- Read a slot behind its percent sign. -/
def readSlot (s : List Char) : Option (Slot × List Char) :=
  let flags := s.takeWhile ("-+0 #".toList.contains ·)
  let s := s.drop flags.length
  let width := s.takeWhile isDigit
  let s := s.drop width.length
  let (precision, s) := match s with
    | '.' :: s => (some (number (s.takeWhile isDigit)), s.dropWhile isDigit)
    | s => (none, s)
  match s with
  | letter :: s =>
      some (⟨flags.contains '-', flags.contains '0', flags.contains '+', number width, precision,
        letter⟩, s)
  | [] => none

def fill (slot : Slot) (s : List Char) : List Char :=
  let missing := slot.width - s.length
  if slot.left then s ++ List.replicate missing ' '
  else if slot.zeros then
    match s with
    | '-' :: digits => '-' :: List.replicate missing '0' ++ digits
    | digits => List.replicate missing '0' ++ digits
  else List.replicate missing ' ' ++ s

/-- The number that an argument stands for: digits, or the code of a character behind a quote. -/
def valueOf (argument : List Char) : Int :=
  match argument with
  | '\'' :: c :: _ => c.toNat
  | '"' :: c :: _ => c.toNat
  | s => (Arithmetic.integer? s).getD 0

def signed (slot : Slot) (n : Int) : List Char :=
  if slot.plus && 0 <= n then '+' :: (toString n).toList else (toString n).toList

def put (slot : Slot) (argument : List Char) : List Char × Bool :=
  let cut (s : List Char) := (slot.precision.map fun n => s.take n).getD s
  let bits := (BitVec.ofInt 64 (valueOf argument)).toNat
  match slot.letter with
  | 's' => (fill { slot with zeros := false } (cut argument), true)
  | 'b' =>
      let (printed, goesOn) := escapes (argument.length + 1) argument
      (fill { slot with zeros := false } (cut printed), goesOn)
  | 'c' => (fill { slot with zeros := false } (argument.take 1), true)
  | 'd' => (fill slot (signed slot (valueOf argument)), true)
  | 'i' => (fill slot (signed slot (valueOf argument)), true)
  | 'u' => (fill slot (toString bits).toList, true)
  | 'o' => (fill slot (Nat.toDigits 8 bits), true)
  | 'x' => (fill slot (Nat.toDigits 16 bits), true)
  | 'X' => (fill slot ((Nat.toDigits 16 bits).map Char.toUpper), true)
  | c => (['%', c], true)

/-- Print a format once: the text, the arguments that are left, and whether printing goes on. -/
def once : (fuel : Nat) -> (format : List Char) -> List (List Char) ->
    List Char × List (List Char) × Bool
  | 0, _, arguments => ([], arguments, false)
  | _, [], arguments => ([], arguments, true)
  | _, '\\' :: 'c' :: _, arguments => ([], arguments, false)
  | fuel + 1, '\\' :: s, arguments =>
      match readEscape false s with
      | some (c, rest) =>
          let (more, left, goesOn) := once fuel rest arguments
          (c :: more, left, goesOn)
      | none =>
          let (more, left, goesOn) := once fuel s arguments
          ('\\' :: more, left, goesOn)
  | fuel + 1, '%' :: '%' :: s, arguments =>
      let (more, left, goesOn) := once fuel s arguments
      ('%' :: more, left, goesOn)
  | fuel + 1, '%' :: s, arguments =>
      match readSlot s with
      | none => (['%'], arguments, true)
      | some (slot, rest) =>
          let (printed, goesOn) := put slot (arguments.headD [])
          if goesOn then
            let (more, left, goesOn) := once fuel rest (arguments.drop 1)
            (printed ++ more, left, goesOn)
          else (printed, arguments.drop 1, false)
  | fuel + 1, c :: s, arguments =>
      let (more, left, goesOn) := once fuel s arguments
      (c :: more, left, goesOn)

/-- Print a format again and again until no argument is left. -/
def format (text : List Char) : (fuel : Nat) -> List (List Char) -> List Char
  | 0, _ => []
  | fuel + 1, arguments =>
      let (printed, left, goesOn) := once (text.length + 1) text arguments
      if !goesOn || left.isEmpty || left.length = arguments.length then printed
      else printed ++ format text fuel left

def printf (text : List Char) (arguments : List (List Char)) : List Char :=
  format text (arguments.length + 1) arguments

end Printing

end Shell

end TodoIndex
