import EngineUpkeep.Path

/-!
# Words of a command line

A word is an option by its look: two dashes and a name, perhaps with a value behind an equality
sign, or one dash and letters. A refusal says why a command line is not carried out; being asked for
help or for the version is one of the reasons.
-/

namespace EngineUpkeep

namespace CommandLine

/-- Why a command line is not carried out. -/
inductive Refusal where
  /-- Help was asked for. -/
  | help
  /-- The version was asked for; this is what is printed. -/
  | version (text : Text)
  /-- A value is missing, empty or none of those that are allowed. -/
  | invalidValue
  /-- A value is not the number that it has to be. -/
  | unreadableValue
  /-- Something that can be given once was given again. -/
  | repeated
  /-- A value was given to an option that has none. -/
  | unexpectedValue
  /-- A word is not known. -/
  | unknownWord
  /-- A word that has to be there is missing. -/
  | missingWord
  /-- A command is not known. -/
  | unknownCommand
  /-- There is no command. -/
  | missingCommand
  /-- There is nothing at all. -/
  | nothing
deriving DecidableEq, Repr, Inhabited

/-- The exit code with which a refusal ends a command. -/
def Refusal.exitCode : Refusal → Int
  | .help => 0
  | .version _ => 0
  | _ => 2

/-- What is printed to the output at a refusal. -/
def Refusal.output : Refusal → Text
  | .version text => text
  | _ => []

/-- What a word looks like. -/
inductive Shape where
  /-- Two dashes and nothing else. -/
  | dashes
  /-- Two dashes, a name, and perhaps a value. -/
  | long (name : Text) (value? : Option Text)
  /-- One dash and letters. -/
  | short (letters : Text)
  /-- Anything else. -/
  | plain
deriving DecidableEq, Repr

/-- The look of a word. -/
def shapeOf (word : Text) : Shape :=
  match word with
  | ['-', '-'] => .dashes
  | '-' :: '-' :: rest =>
    match Text.splitOnce rest '=' with
    | some (name, value) => .long name (some value)
    | none => .long rest none
  | '-' :: c :: rest => .short (c :: rest)
  | _ => .plain

/-- The word that a text writes in decimal, perhaps with a plus sign. -/
def count? (text : Text) : Option Nat :=
  match text with
  | '+' :: digits => Text.toWord? digits
  | digits => Text.toWord? digits

/-- The path that a value gives. It has at least one character. -/
def path? (value : Text) : Except Refusal Path :=
  if value = [] then .error .invalidValue else .ok ⟨value⟩

end CommandLine

end EngineUpkeep
