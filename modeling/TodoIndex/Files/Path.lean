import TodoIndex.Text.Utf8

/-!
# Paths

A path is a byte string, as file systems name things; it need not be text.  Two
spellings mean the same place when they have the same components: repeated and
trailing slashes do not count, nor does a `.` that is not the first component.
-/

namespace TodoIndex

open Text (Bytes)

/-- A path as it was spelled. -/
structure Path where
  bytes : Bytes
  deriving DecidableEq, Inhabited

namespace Path

/-- The byte of the character `/`. -/
def slash : UInt8 := 47

/-- The byte of the character `.`. -/
def dot : UInt8 := 46

/-- One component of a path. -/
inductive Component where
  | root
  | current
  | parent
  | normal (name : Bytes)
  deriving DecidableEq, Inhabited

def compareBytes : Bytes -> Bytes -> Ordering
  | [], [] => .eq
  | [], _ :: _ => .lt
  | _ :: _, [] => .gt
  | a :: s, b :: t => (compare a b).then (compareBytes s t)

namespace Component

/-- The place of a kind of component in the order of paths. -/
def rank : Component -> Nat
  | .root => 0
  | .current => 1
  | .parent => 2
  | .normal _ => 3

def compare : Component -> Component -> Ordering
  | .normal s, .normal t => compareBytes s t
  | c, d => Ord.compare c.rank d.rank

def bytes : Component -> Bytes
  | .root => [slash]
  | .current => [dot]
  | .parent => [dot, dot]
  | .normal name => name

end Component

/-- The pieces between the slashes of a byte string; always at least one. -/
def pieces : Bytes -> List Bytes
  | [] => [[]]
  | b :: s =>
      if b = slash then [] :: pieces s
      else
        match pieces s with
        | [] => [[b]]
        | piece :: rest => (b :: piece) :: rest

/-- The component a piece stands for, unless it says nothing. -/
def component? (piece : Bytes) : Option Component :=
  if piece = [] || piece = [dot] then none
  else if piece = [dot, dot] then some .parent
  else some (.normal piece)

def components (p : Path) : List Component :=
  let all := pieces p.bytes
  match p.bytes, all with
  | b :: _, _ :: rest =>
      if b = slash then .root :: rest.filterMap component?
      else if all.head? = some [dot] then .current :: rest.filterMap component?
      else all.filterMap component?
  | _, _ => []

/-- Whether two spellings mean the same place. -/
def same (p q : Path) : Bool :=
  p.components == q.components

theorem same_iff {p q : Path} : p.same q = true ↔ p.components = q.components := by
  simp [same]

theorem same_trans {p q r : Path} (hpq : p.same q = true) (hqr : q.same r = true) :
    p.same r = true :=
  same_iff.mpr ((same_iff.mp hpq).trans (same_iff.mp hqr))

theorem same_symm {p q : Path} (h : p.same q = true) : q.same p = true :=
  same_iff.mpr (same_iff.mp h).symm

theorem same_self (p : Path) : p.same p = true :=
  same_iff.mpr rfl

def compareComponents : List Component -> List Component -> Ordering
  | [], [] => .eq
  | [], _ :: _ => .lt
  | _ :: _, [] => .gt
  | c :: p, d :: q => (c.compare d).then (compareComponents p q)

def compare (p q : Path) : Ordering :=
  compareComponents p.components q.components

def ofString (s : String) : Path :=
  ⟨Text.bytesOf s⟩

/-- The path as text, with U+FFFD for what is no text. -/
def display (p : Path) : String :=
  Text.shown p.bytes

instance : ToString Path where
  toString := display

def isAbsolute (p : Path) : Bool :=
  p.bytes.head? == some slash

def isEmpty (p : Path) : Bool :=
  p.bytes.isEmpty

/-- The path `q` seen from `p`; an absolute `q` stands for itself. -/
def join (p q : Path) : Path :=
  if q.isAbsolute then q
  else if p.bytes.isEmpty || p.bytes.getLast? == some slash then ⟨p.bytes ++ q.bytes⟩
  else ⟨p.bytes ++ slash :: q.bytes⟩

def child (p : Path) (name : Bytes) : Path :=
  p.join ⟨name⟩

/-- The name of the last component, if it is a name. -/
def fileName? (p : Path) : Option Bytes :=
  match p.components.getLast? with
  | some (.normal name) => some name
  | _ => none

/-- The part of the file name after its last dot; a leading dot does not count. -/
def extension? (p : Path) : Option Bytes :=
  match p.fileName? with
  | none => none
  | some name =>
      let after := (name.reverse.takeWhile (· != dot)).reverse
      let before := name.take (name.length - after.length - 1)
      if after.length = name.length || before = [] then none else some after

/-- The spelling without the slashes and dots at its end that say nothing. -/
def trimTail (reversed : Bytes) : Bytes :=
  match reversed with
  | [] => []
  | [b] => [b]
  | b :: c :: s =>
      if b = slash then trimTail (c :: s)
      else if b = dot && c = slash then trimTail (c :: s)
      else b :: c :: s

/-- The path without its last component, as it was spelled. -/
def parent? (p : Path) : Option Path :=
  match p.components.getLast? with
  | none => none
  | some .root => none
  | some _ =>
      let trimmed := trimTail p.bytes.reverse
      let head := trimmed.dropWhile (· != slash)
      some ⟨(trimTail head).reverse⟩

/-- The components of `p` after those of `lead`, if it begins with them. -/
def componentsAfter? : (lead p : List Component) -> Option (List Component)
  | [], p => some p
  | _ :: _, [] => none
  | c :: lead, d :: p => if c = d then componentsAfter? lead p else none

def below? (root p : Path) : Option (List Component) :=
  componentsAfter? root.components p.components

/-- Whether `p` is `root` or lies below it. -/
def startsWith (p root : Path) : Bool :=
  (below? root p).isSome

end Path

end TodoIndex
