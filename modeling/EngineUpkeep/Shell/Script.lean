import EngineUpkeep.Text.Basic

/-!
# Scripts

The parts of a shell script: words, redirections and commands. A word is kept as its parts, since
what a part becomes depends on whether it is quoted. The text of a here-document stands behind the
line of its command, so a redirection only has its number.

Scripts are bytes. Each byte is held as the character with its value.
-/

namespace EngineUpkeep

namespace Shell

/-- What a file is opened for. -/
inductive Access where
  /-- To read it. -/
  | read
  /-- To write it anew, unless files that are there are protected. -/
  | write
  /-- To write it anew in any case. -/
  | overwrite
  /-- To write behind its end. -/
  | append
  /-- To read and to write it. -/
  | readWrite
deriving DecidableEq, Repr, Inhabited

mutual

/-- A part of a word. -/
inductive Part where
  /-- Characters. -/
  | chars (text : Text) (quoted : Bool)
  /-- A parameter. -/
  | parameter (name : Text) (use : Use) (quoted : Bool)
  /-- The value of the sum that a word writes. -/
  | sum (written : List Part) (quoted : Bool)
  /-- What commands print. -/
  | output (body : List Command) (quoted : Bool)

/-- How the value of a parameter is used. -/
inductive Use where
  /-- As it is. -/
  | value
  /-- Its length. -/
  | length
  /-- With a mark such as `:-` or `%` and a word. -/
  | marked (mark : Text) (word : List Part)
  /-- In a way that does not exist. -/
  | unknown

/-- A redirection of a stream. -/
inductive Redirection where
  /-- To a file. -/
  | file (stream : Nat) (access : Access) (name : List Part)
  /-- To where another stream leads; a dash closes the stream. -/
  | stream (stream : Nat) (other : List Part)
  /-- To the here-document with a number. -/
  | document (stream number : Nat)

/-- A command. Commands that can fail before they run know their line. -/
inductive Command where
  /-- Assignments, a name with arguments, and redirections. -/
  | simple (line : Nat) (assignments : List (Text × List Part)) (words : List (List Part))
      (redirections : List Redirection)
  /-- Runs the second or the third list, as the first one succeeds or fails. -/
  | choose (condition yes no : List Command)
  /-- Runs the second list as long as the first one succeeds, or fails. -/
  | loop (onSuccess : Bool) (condition body : List Command)
  /-- Runs a list for each of some words, or for each argument. -/
  | each (line : Nat) (name : Text) (words? : Option (List (List Part))) (body : List Command)
  /-- Runs the list of the first pattern that matches a word. -/
  | select (line : Nat) (subject : List Part)
      (items : List (List (List Part) × List Command))
  /-- Runs a second command if the first one succeeds, or fails. -/
  | chain (first : Command) (onSuccess : Bool) (second : Command)
  /-- Gives the output of each command to the next one as its input. -/
  | pipe (commands : List Command)
  /-- Makes a command a function with a name. -/
  | define (name : Text) (body : Command)
  /-- Succeeds if a command fails. -/
  | negated (command : Command)
  /-- Runs a list as one command. -/
  | group (body : List Command)
  /-- Runs a list in a copy of the shell. -/
  | nested (line : Nat) (body : List Command) (redirections : List Redirection)
  /-- Runs a command with redirections. -/
  | redirected (line : Nat) (command : Command) (redirections : List Redirection)
  /-- Starts a command and does not wait for its end. -/
  | started (command : Command)

end

instance instInhabitedCommand : Inhabited Command := ⟨.group []⟩

/-- A word is the list of its parts. -/
abbrev Word := List Part

/-- The part is quoted. -/
def Part.isQuoted : Part → Bool
  | .chars _ quoted => quoted
  | .parameter _ _ quoted => quoted
  | .sum _ quoted => quoted
  | .output _ quoted => quoted

/-- The characters of a word without quotes and expansions. -/
def plain? : Word → Option Text
  | [.chars text false] => some text
  | _ => none

/-- The characters that stand in a word, quoted or not. -/
def charsIn (word : Word) : Text :=
  word.flatMap fun
    | .chars text _ => text
    | _ => []

/-- A word with further characters at its end. -/
def addChars (word : Word) (text : Text) (quoted : Bool) : Word :=
  match word.reverse with
  | .chars before false :: parts =>
    if quoted then word ++ [.chars text true]
    else parts.reverse ++ [.chars (before ++ text) false]
  | _ => word ++ [.chars text quoted]

/-- A character that may begin a name. -/
def startsName (c : Char) : Bool :=
  c.isAlpha || c = '_'

/-- A character of a name. -/
def isNameChar (c : Char) : Bool :=
  startsName c || Text.isAsciiDigit c

/-- A text is a name. -/
def isName : Text → Bool
  | [] => false
  | c :: rest => startsName c && rest.all isNameChar

/-- The name and the value of a word that is an assignment. -/
def assignment? (word : Word) : Option (Text × Word) :=
  match word with
  | .chars text false :: rest =>
    match Text.splitOnce text '=' with
    | some (name, value) =>
      if isName name then
        some (name, if value = [] then rest else .chars value false :: rest)
      else none
    | none => none
  | _ => none

/-- The names of the commands that every shell must have as parts of it. -/
def specialNames : List Text :=
  [":", ".", "break", "continue", "eval", "exec", "exit", "export", "local", "readonly", "return",
    "set", "shift", "times", "trap", "unset"]

end Shell

end EngineUpkeep
