/-!
# Lines of a text

A line ends at a line feed; a carriage return directly before that line feed is
part of the line end.  A text that ends with a line feed has no empty line after it.
-/

namespace TodoIndex

namespace Text

/-- The pieces that end with a line feed, without it, and the unended rest. -/
def splitLineFeeds : List Char -> List (List Char) × List Char
  | [] => ([], [])
  | c :: s =>
      let (ended, rest) := splitLineFeeds s
      if c = '\n' then ([] :: ended, rest)
      else
        match ended with
        | [] => ([], c :: rest)
        | line :: more => ((c :: line) :: more, rest)

def dropReturn (line : List Char) : List Char :=
  match line.reverse with
  | '\r' :: before => before.reverse
  | _ => line

def lines (s : List Char) : List (List Char) :=
  let (ended, rest) := splitLineFeeds s
  ended.map dropReturn ++ (if rest.isEmpty then [] else [rest])

def lineFeeds (s : List Char) : Nat :=
  s.count '\n'

@[simp] theorem lineFeeds_nil : lineFeeds [] = 0 := rfl

@[simp] theorem lineFeeds_append (s t : List Char) :
    lineFeeds (s ++ t) = lineFeeds s + lineFeeds t :=
  List.count_append

end Text

end TodoIndex
