import TodoIndex.Files.Disk
import TodoIndex.Shell.Arithmetic
import TodoIndex.Shell.Search
import TodoIndex.Text.Lines

/-!
# Tools

The programs that scripts use to look at files and texts.  A tool gets its arguments and its
input, and gives what it prints, what it complains about, and the number it ends with.
-/

namespace TodoIndex

namespace Shell

def charsOf (bytes : Text.Bytes) : List Char :=
  bytes.map fun b => Char.ofNat b.toNat

def bytesOf (s : List Char) : Text.Bytes :=
  s.map fun c => UInt8.ofNat c.toNat

/-- How a tool ended. -/
structure Finish where
  output : List Char
  errors : List Char
  code : Nat
  deriving Inhabited

/-- What a tool does on a disk with its arguments and its input. -/
abbrev Tool := Disk -> List (List Char) -> List Char -> Finish

namespace Tool

def reasonOf (e : OsError) : List Char :=
  match e.numbered? with
  | some (_, words) => words.toList
  | none => e.message.toList

def complaint (tool : String) (subject reason : List Char) : List Char :=
  tool.toList ++ ": ".toList ++ subject ++ ": ".toList ++ reason ++ ['\n']

/-- The lines of a text; the last one need not be ended. -/
def linesOf (s : List Char) : List (List Char) :=
  let (ended, rest) := Text.splitLineFeeds s
  ended ++ (if rest.isEmpty then [] else [rest])

def unlines (lines : List (List Char)) : List Char :=
  lines.flatMap (· ++ ['\n'])

/-- What a file contains; a dash stands for the input, and the null device is empty. -/
def contentOf (disk : Disk) (input name : List Char) : Except OsError (List Char) :=
  if name = ['-'] then .ok input
  else if name = "/dev/null".toList then .ok []
  else (disk.contents ⟨bytesOf name⟩).map charsOf

/-- The contents of files one after another, and the complaints about those without. -/
def gather (tool : String) (disk : Disk) (input : List Char) :
    List (List Char) -> List Char × List Char
  | [] => ([], [])
  | name :: names =>
      let (contents, errors) := gather tool disk input names
      match contentOf disk input name with
      | .ok content => (content ++ contents, errors)
      | .error e => (contents, complaint tool name (reasonOf e) ++ errors)

/-- Do something with the contents of files, or with the input if none is named. -/
def onContents (tool : String) (disk : Disk) (input : List Char) (names : List (List Char))
    (change : List Char -> List Char) : Finish :=
  let (contents, errors) :=
    gather tool disk input (if names.isEmpty then [['-']] else names)
  ⟨change contents, errors, if errors.isEmpty then 0 else 1⟩

def isOption (s : List Char) : Bool :=
  match s with
  | '-' :: _ :: _ => true
  | _ => false

/-- The letters of the options, and the other arguments. -/
def split : List (List Char) -> List Char × List (List Char)
  | [] => ([], [])
  | argument :: arguments =>
      if argument = "--".toList then ([], arguments)
      else
        let (letters, others) := split arguments
        if isOption argument then (argument.drop 1 ++ letters, others)
        else (letters, argument :: others)

def valueOf? (letter : Char) : List (List Char) -> Option (List Char) × List (List Char)
  | [] => (none, [])
  | ['-', c] :: value :: arguments =>
      if c = letter then (some value, arguments)
      else
        let (found, others) := valueOf? letter (value :: arguments)
        (found, ['-', c] :: others)
  | ('-' :: c :: value) :: arguments =>
      if c = letter then (some value, arguments)
      else
        let (found, others) := valueOf? letter arguments
        (found, ('-' :: c :: value) :: others)
  | argument :: arguments =>
      let (found, others) := valueOf? letter arguments
      (found, argument :: others)

def naturalOf (s : List Char) : Nat :=
  ((Arithmetic.natural? 10 s).getD 0)

def cat : Tool := fun disk arguments input =>
  let (_, names) := split arguments
  onContents "cat" disk input names id

/-- How a search goes about lines. -/
structure SearchMode where
  inverted : Bool
  numbered : Bool
  counted : Bool
  quiet : Bool
  onlyMatches : Bool
  namesOnly : Bool
  withNames : Bool

def lowerChars (s : List Char) : List Char :=
  s.map Char.toLower

def searchIn (mode : SearchMode) (isMatch : List Char -> Bool)
    (partsOf : List Char -> List (List Char)) (name content : List Char) : Bool × List Char :=
  let lines := (linesOf content).zipIdx 1
  let found := lines.filter fun (line, _) => isMatch line != mode.inverted
  let lead := if mode.withNames then name ++ [':'] else []
  let shown (line : List Char) (number : Nat) : List Char :=
    lead ++ (if mode.numbered then (toString number).toList ++ [':'] else []) ++ line ++ ['\n']
  let printed :=
    if mode.quiet then []
    else if mode.namesOnly then if found.isEmpty then [] else name ++ ['\n']
    else if mode.counted then lead ++ (toString found.length).toList ++ ['\n']
    else if mode.onlyMatches then
      found.flatMap fun (line, number) => (partsOf line).flatMap fun s => shown s number
    else found.flatMap fun (line, number) => shown line number
  (!found.isEmpty, printed)

/-- Search files one after another. -/
def searchAll (search : (name content : List Char) -> Bool × List Char) (disk : Disk)
    (input : List Char) : List (List Char) -> Bool × List Char × List Char
  | [] => (false, [], [])
  | name :: names =>
      let (found, printed, errors) := searchAll search disk input names
      match contentOf disk input name with
      | .ok content =>
          let (here, more) := search (if name = ['-'] then "(standard input)".toList else name)
            content
          (here || found, more ++ printed, errors)
      | .error e => (found, printed, complaint "grep" name (reasonOf e) ++ errors)

/-- An expression that has to match whole lines or whole words. -/
def bounded (letters : List Char) (r : Regex) : Regex :=
  if letters.contains 'x' then .chain .lineStart (.chain r .lineEnd)
  else if letters.contains 'w' then
    .chain (.either .wordStart .lineStart) (.chain r (.either .wordEnd .lineEnd))
  else r

def grep (extended fixed : Bool) : Tool := fun disk arguments input =>
  let (wanted, arguments) := valueOf? 'e' arguments
  let (letters, others) := split arguments
  let (pattern?, names) := match wanted, others with
    | some pattern, names => (some pattern, names)
    | none, pattern :: names => (some pattern, names)
    | none, [] => (none, [])
  match pattern? with
  | none => ⟨[], "Usage: grep [OPTION]... PATTERNS [FILE]...\n".toList, 2⟩
  | some pattern =>
      let ignoring := letters.contains 'i'
      let fold (s : List Char) := if ignoring then lowerChars s else s
      let read := fun line : List Char =>
        if fixed || letters.contains 'F' then some (Regex.literal line)
        else Regex.ofText? (extended || letters.contains 'E') line
      match ((fold pattern).splitOnP (· = '\n')).mapM read with
      | none => ⟨[], "grep: Invalid regular expression\n".toList, 2⟩
      | some rs =>
          let r := bounded letters ((rs.drop 1).foldl .either (rs.headD .empty))
          let mode : SearchMode := ⟨letters.contains 'v', letters.contains 'n',
            letters.contains 'c', letters.contains 'q', letters.contains 'o',
            letters.contains 'l', letters.contains 'H' ||
              (names.length > 1 && !letters.contains 'h')⟩
          let (found, printed, errors) := searchAll
            (searchIn mode (fun line => r.matchesIn none (fold line))
              fun line => r.matchesFrom (line.length + 1) (none, line)) disk input
            (if names.isEmpty then [['-']] else names)
          ⟨printed, if letters.contains 's' then [] else errors,
            if !errors.isEmpty && !(found && mode.quiet) then 2 else if found then 0 else 1⟩

def countOf (letter : Char) (arguments : List (List Char)) :
    Option (List Char) × List (List Char) :=
  match arguments with
  | ('-' :: c :: digits) :: others =>
      if isDigit c then (some (c :: digits), others) else valueOf? letter arguments
  | _ => valueOf? letter arguments

def head : Tool := fun disk arguments input =>
  match valueOf? 'c' arguments with
  | (some count, [name]) =>
      if name = "/dev/zero".toList then ⟨List.replicate (naturalOf count) '\x00', [], 0⟩
      else onContents "head" disk input [name] (·.take (naturalOf count))
  | (some count, others) => onContents "head" disk input others (·.take (naturalOf count))
  | (none, _) =>
      let (count, names) := countOf 'n' arguments
      let lines := (count.map naturalOf).getD 10
      onContents "head" disk input names fun s =>
        if (linesOf s).length <= lines then s else unlines ((linesOf s).take lines)

def tail : Tool := fun disk arguments input =>
  let (count, names) := countOf 'n' arguments
  let keep (s : List Char) : List Char :=
    let lines := linesOf s
    let dropped := match count with
      | some ('+' :: n) => naturalOf n - 1
      | some n => lines.length - naturalOf n
      | none => lines.length - 10
    s.drop (unlines (lines.take dropped)).length
  onContents "tail" disk input names keep

def wordCount (s : List Char) : Nat :=
  ((s.splitOnP fun c => " \t\n\r".toList.contains c).filter (!·.isEmpty)).length

def wc : Tool := fun disk arguments input =>
  let (letters, names) := split arguments
  let wanted := if letters.isEmpty then ['l', 'w', 'c'] else ['l', 'w', 'c', 'm'].filter letters.contains
  let count (s : List Char) : Char -> Nat
    | 'l' => s.count '\n'
    | 'w' => wordCount s
    | _ => s.length
  let line (s name : List Char) : List Char :=
    let numbers := wanted.map fun letter => (toString (count s letter)).toList
    let width := if wanted.length = 1 then 0 else if names.isEmpty then 7 else
      (toString s.length).length
    let padded := numbers.map fun n => List.replicate (width - n.length) ' ' ++ n
    List.intercalate [' '] (padded ++ (if name.isEmpty then [] else [name])) ++ ['\n']
  match names with
  | [] => ⟨line input [], [], 0⟩
  | names =>
      let each := names.map fun name => match contentOf disk input name with
        | .ok content => (line content name, [])
        | .error e => ([], complaint "wc" name (reasonOf e))
      let errors := each.flatMap Prod.snd
      ⟨each.flatMap Prod.fst, errors, if errors.isEmpty then 0 else 1⟩

def leadingNumber (s : List Char) : Int :=
  let s := s.dropWhile (· = ' ')
  match s with
  | '-' :: digits => -(naturalOf (digits.takeWhile isDigit) : Int)
  | digits => naturalOf (digits.takeWhile isDigit)

/-- Texts in the order of their characters. -/
def isBefore : List Char -> List Char -> Bool
  | [], _ => true
  | _ :: _, [] => false
  | a :: s, b :: t => if a = b then isBefore s t else a < b

/-- Leave out each line that is like the one before. -/
def withoutRepeats : List (List Char) -> List (List Char)
  | [] => []
  | [line] => [line]
  | a :: b :: lines => if a = b then withoutRepeats (b :: lines) else a :: withoutRepeats (b :: lines)

def sort : Tool := fun disk arguments input =>
  let (letters, names) := split arguments
  onContents "sort" disk input names fun s =>
    let before (a b : List Char) :=
      if letters.contains 'n' then leadingNumber a < leadingNumber b ||
        (leadingNumber a = leadingNumber b && isBefore a b)
      else isBefore a b
    let lines := (linesOf s).mergeSort before
    let lines := if letters.contains 'r' then lines.reverse else lines
    unlines (if letters.contains 'u' then withoutRepeats lines else lines)

def uniq : Tool := fun disk arguments input =>
  let (_, names) := split arguments
  onContents "uniq" disk input names fun s => unlines (withoutRepeats (linesOf s))

/-- The characters between two characters. -/
def span (a b : Char) : List Char :=
  (List.range (b.toNat + 1 - a.toNat)).map fun n => Char.ofNat (a.toNat + n)

/-- The characters that an argument of `tr` stands for. -/
def members : (fuel : Nat) -> List Char -> List Char
  | 0, _ => []
  | _, [] => []
  | fuel + 1, '[' :: ':' :: s =>
      let name := String.ofList (s.takeWhile (· != ':'))
      ((CharSet.named name).flatMap fun (a, b) => span a b) ++
        members fuel ((s.dropWhile (· != ':')).drop 2)
  | fuel + 1, '\\' :: 'n' :: s => '\n' :: members fuel s
  | fuel + 1, '\\' :: 't' :: s => '\t' :: members fuel s
  | fuel + 1, '\\' :: c :: s => c :: members fuel s
  | fuel + 1, a :: '-' :: b :: s => span a b ++ members fuel s
  | fuel + 1, a :: s => a :: members fuel s

def tr : Tool := fun _ arguments input =>
  let (letters, sets) := split arguments
  let first := members 300 (sets.headD [])
  let second := members 300 ((sets.drop 1).headD [])
  if letters.contains 'd' then ⟨input.filter (!first.contains ·), [], 0⟩
  else
    let last := second.getLast?
    ⟨input.map fun c =>
      match first.idxOf? c with
      | some place => (second[place]?).getD (last.getD c)
      | none => c, [], 0⟩

def isListed (list : List Char) (place : Nat) : Bool :=
  (list.splitOnP (· = ',')).any fun range =>
    match range.splitOnP (· = '-') with
    | [n] => place = naturalOf n
    | [a, []] => naturalOf a <= place
    | [a, b] => naturalOf a <= place && place <= naturalOf b
    | _ => false

def cut : Tool := fun disk arguments input =>
  let (separator, arguments) := valueOf? 'd' arguments
  let (fields, arguments) := valueOf? 'f' arguments
  let (chars, names) := valueOf? 'c' arguments
  let separator := (separator.getD ['\t']).headD '\t'
  let kept {α : Type} (list : List Char) (parts : List α) : List α :=
    ((parts.zipIdx 1).filter fun (_, place) => isListed list place).map Prod.fst
  onContents "cut" disk input names fun s => unlines <| (linesOf s).map fun line =>
    match fields, chars with
    | some list, _ =>
        if line.contains separator then
          List.intercalate [separator] (kept list (line.splitOnP (· = separator)))
        else line
    | none, some list => kept list line
    | none, none => line

def seq : Tool := fun _ arguments _ =>
  let bounds := arguments.map leadingNumber
  let (first, step, last) : Int × Int × Int := match bounds with
    | [last] => (1, 1, last)
    | [first, last] => (first, 1, last)
    | [first, step, last] => (first, step, last)
    | _ => (1, 1, 0)
  let count := if step = 0 then 0 else ((last - first) / step + 1).toNat
  ⟨unlines ((List.range count).map fun k : Nat => (toString (first + step * (k : Int))).toList), [], 0⟩

def withoutSlashes (s : List Char) : List Char :=
  match (s.reverse.dropWhile (· = '/')).reverse with
  | [] => s.take 1
  | kept => kept

def basename : Tool := fun _ arguments _ =>
  match arguments with
  | name :: suffix =>
      let base := (((withoutSlashes name).reverse.takeWhile (· != '/')).reverse)
      let base := if base.isEmpty then withoutSlashes name else base
      let ending := suffix.headD []
      let shown := if !ending.isEmpty && ending.isSuffixOf base && ending != base then
        base.take (base.length - ending.length) else base
      ⟨shown ++ ['\n'], [], 0⟩
  | [] => ⟨[], "basename: missing operand\n".toList, 1⟩

def dirname : Tool := fun _ arguments _ =>
  match arguments with
  | name :: _ =>
      let before := (withoutSlashes name).reverse.dropWhile (· != '/')
      let folder := if before.isEmpty then ['.'] else withoutSlashes before.reverse
      ⟨folder ++ ['\n'], [], 0⟩
  | [] => ⟨[], "dirname: missing operand\n".toList, 1⟩

/-- The names of a folder's entries that do not begin with a dot. -/
def visibleNames (folder : Folder) : List (List Char) :=
  (folder.names.map charsOf).filter fun name => name.head? != some '.'

def ls : Tool := fun disk arguments _ =>
  let (_, names) := split arguments
  let name := names.headD ['.']
  match disk.readFolder ⟨bytesOf name⟩, disk.entry true ⟨bytesOf name⟩ with
  | .ok folder, _ => ⟨unlines (visibleNames folder), [], 0⟩
  | .error _, .ok _ => ⟨name ++ ['\n'], [], 0⟩
  | .error _, .error e =>
      ⟨[], "ls: cannot access '".toList ++ name ++ "': ".toList ++ reasonOf e ++ ['\n'], 2⟩

def ofName? : String -> Option Tool
  | "cat" => some cat
  | "grep" => some (grep false false)
  | "egrep" => some (grep true false)
  | "fgrep" => some (grep false true)
  | "head" => some head
  | "tail" => some tail
  | "wc" => some wc
  | "sort" => some sort
  | "uniq" => some uniq
  | "tr" => some tr
  | "cut" => some cut
  | "seq" => some seq
  | "basename" => some basename
  | "dirname" => some dirname
  | "ls" => some ls
  | _ => none

end Tool

end Shell

end TodoIndex
