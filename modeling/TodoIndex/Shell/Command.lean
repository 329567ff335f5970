/-!
# Commands of the shell

Helper commands may be scripts for the POSIX shell.  This is what a script consists of: words,
whose pieces are filled in when the command runs, and commands made of words and commands.
Each character of a text stands for one byte.
-/

namespace TodoIndex

namespace Shell

mutual

/-- A piece of a word.  What comes from a quoted piece is neither split nor a pattern. -/
inductive Piece where
  | plain (text : List Char) (quoted : Bool)
  | parameter (name : List Char) (change : Change) (quoted : Bool)
  | output (body : Command) (quoted : Bool)
  | number (expression : List Piece) (quoted : Bool)

/-- What is done with the value of a parameter.  Where there is a `colon`, an empty value
counts like none. -/
inductive Change where
  | keep
  | length
  | default (colon : Bool) (word : List Piece)
  | assign (colon : Bool) (word : List Piece)
  | fail (colon : Bool) (word : List Piece)
  | replace (colon : Bool) (word : List Piece)
  | dropLead (longest : Bool) (pattern : List Piece)
  | dropTail (longest : Bool) (pattern : List Piece)

/-- Where a stream of a command comes from or goes to. -/
inductive Redirect where
  | input (stream : Nat) (file : List Piece)
  | write (stream : Nat) (file : List Piece)
  | append (stream : Nat) (file : List Piece)
  | copy (stream : Nat) (source : List Piece)
  /-- The input is the text with this number that stands in the script. -/
  | here (stream : Nat) (number : Nat)

/-- A command. -/
inductive Command where
  | skip
  | simple (line : Nat) (assignments : List (List Char × List Piece)) (words : List (List Piece))
      (redirects : List Redirect)
  | pipe (negated : Bool) (stages : List Command)
  | both (first second : Command)
  | either (first second : Command)
  | sequence (first second : Command)
  | background (body : Command)
  | redirected (body : Command) (redirects : List Redirect)
  | subshell (body : Command)
  | branch (condition yes no : Command)
  | loop (negated : Bool) (condition body : Command)
  | each (name : List Char) (words : Option (List (List Piece))) (body : Command)
  | choice (word : List Piece) (items : List (List (List Piece) × Command))
  | define (name : List Char) (body : Command)

end

/-- A word before it is filled in. -/
abbrev Word := List Piece

instance : Inhabited Command := ⟨.skip⟩

/-- A script: its commands and the texts that stand in it. -/
structure Script where
  body : Command
  texts : List Word

end Shell

end TodoIndex
