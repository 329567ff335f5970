/-!
# UTF-8 as bytes

Decoding comes in a strict form, for text that has to be valid, and in a lossy form
that puts U+FFFD for every maximal part that is no character.  Both are built on
`headAt`, which reads one character, or one such part, at the head of a byte string.
-/

namespace TodoIndex

namespace Text

abbrev Bytes := List UInt8

namespace Utf8

/-- What a byte string begins with: a character, or a part that is none. -/
inductive Head where
  | char (c : Char) (length : Nat)
  | malformed (length : Nat)
  deriving DecidableEq

/-- How many bytes the head spans. -/
def Head.length : Head -> Nat
  | .char _ n => n
  | .malformed n => n

/-- The character a head stands for, with U+FFFD for a malformed part. -/
def Head.shown : Head -> Char
  | .char c _ => c
  | .malformed _ => '\uFFFD'

def isContinuation (b : UInt8) : Bool :=
  0x80 <= b && b <= 0xBF

/-- Whether `b` may follow the lead byte of a sequence of three bytes. -/
def secondOfThree (lead b : UInt8) : Bool :=
  if lead == 0xE0 then 0xA0 <= b && b <= 0xBF
  else if lead == 0xED then 0x80 <= b && b <= 0x9F
  else isContinuation b

/-- Whether `b` may follow the lead byte of a sequence of four bytes. -/
def secondOfFour (lead b : UInt8) : Bool :=
  if lead == 0xF0 then 0x90 <= b && b <= 0xBF
  else if lead == 0xF4 then 0x80 <= b && b <= 0x8F
  else isContinuation b

/-- The low six bits of a continuation byte. -/
def payload (b : UInt8) : Nat :=
  b.toNat % 64

/-- Read the head of a byte string that begins with `b`. -/
def headAt (b : UInt8) (s : Bytes) : Head :=
  if b < 0x80 then .char (Char.ofNat b.toNat) 1
  else if 0xC2 <= b && b <= 0xDF then
    match s with
    | b₁ :: _ =>
        if isContinuation b₁ then .char (Char.ofNat (b.toNat % 32 * 64 + payload b₁)) 2
        else .malformed 1
    | [] => .malformed 1
  else if 0xE0 <= b && b <= 0xEF then
    match s with
    | b₁ :: s =>
        if secondOfThree b b₁ then
          match s with
          | b₂ :: _ =>
              if isContinuation b₂ then
                .char (Char.ofNat ((b.toNat % 16 * 64 + payload b₁) * 64 + payload b₂)) 3
              else .malformed 2
          | [] => .malformed 2
        else .malformed 1
    | [] => .malformed 1
  else if 0xF0 <= b && b <= 0xF4 then
    match s with
    | b₁ :: s =>
        if secondOfFour b b₁ then
          match s with
          | b₂ :: s =>
              if isContinuation b₂ then
                match s with
                | b₃ :: _ =>
                    if isContinuation b₃ then
                      .char (Char.ofNat
                        (((b.toNat % 8 * 64 + payload b₁) * 64 + payload b₂) * 64 + payload b₃)) 4
                    else .malformed 3
                | [] => .malformed 3
              else .malformed 2
          | [] => .malformed 2
        else .malformed 1
    | [] => .malformed 1
  else .malformed 1

/-- The heads of a byte string after its first `skip` bytes. -/
def headsAfter (skip : Nat) : Bytes -> List Head
  | [] => []
  | b :: s =>
      match skip with
      | skip + 1 => headsAfter skip s
      | 0 =>
          let head := headAt b s
          head :: headsAfter (head.length - 1) s

/-- The characters and malformed parts of a byte string, from left to right. -/
def heads (s : Bytes) : List Head :=
  headsAfter 0 s

/-- The characters of a byte string, with U+FFFD for every malformed part. -/
def decodeLossy (s : Bytes) : List Char :=
  (heads s).map Head.shown

/-- The character a head stands for, if it is one. -/
def Head.char? : Head -> Option Char
  | .char c _ => some c
  | .malformed _ => none

/-- The characters of a byte string, with nothing for every malformed part. -/
def signs (s : Bytes) : List (Option Char) :=
  (heads s).map Head.char?

/-- The characters of a byte string without malformed parts. -/
def decode? (s : Bytes) : Option (List Char) :=
  (heads s).mapM Head.char?

def encode (s : List Char) : Bytes :=
  s.flatMap String.utf8EncodeChar

end Utf8

def bytesOf (s : String) : Bytes :=
  s.toUTF8.data.toList

/-- The bytes of a string are those of its characters. -/
theorem bytesOf_eq (s : String) : bytesOf s = Utf8.encode s.toList := by
  have hbytes := congrArg (fun bytes : ByteArray => bytes.data.toList)
    (@String.utf8Encode_toList s)
  rw [bytesOf, String.toUTF8, ← hbytes]
  simp [List.utf8Encode, Utf8.encode]

/-- The string of a byte string, with U+FFFD for every malformed part. -/
def shown (s : Bytes) : String :=
  String.ofList (Utf8.decodeLossy s)

end Text

end TodoIndex
