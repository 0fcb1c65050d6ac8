import EngineUpkeep.Text.Digit

/-!
# Versions

The version of the analyzer is read off what it prints when it is asked for its version: the numbers
after a mark such as `LLVM version`. Marks are tried in order; for each the leftmost place counts,
and case does not matter.

An installation is ranked by the version in its path.
-/

namespace EngineUpkeep

namespace Version

/-- A character without its case. Outside ASCII two characters are variants of ASCII letters. -/
def foldCase (c : Char) : Char :=
  if c = 'ſ' then 's' else if c = '\u212A' then 'k' else Text.lowerAscii c

/-- The text after a mark in lower case that it begins with, in any case. -/
def afterMark? : Text → Text → Option Text
  | [], text => some text
  | m :: mark, c :: text => if foldCase c = m then afterMark? mark text else none
  | _ :: _, [] => none

/-- Takes one or more digits. -/
def takeDigits? (text : Text) : Option (Text × Text) :=
  if text.takeWhile Text.isDigit = [] then none
  else some (text.takeWhile Text.isDigit, text.dropWhile Text.isDigit)

/-- Takes a dot. -/
def afterDot? : Text → Option Text
  | '.' :: rest => some rest
  | _ => none

/-- The three numbers, with dots between them, that a text begins with. -/
def numbers? (text : Text) : Option (Text × Text × Text) := do
  let (major, rest) ← takeDigits? text
  let (minor, rest) ← takeDigits? (← afterDot? rest)
  let (patch, _) ← takeDigits? (← afterDot? rest)
  some (major, minor, patch)

/-- What `take` gives at the leftmost place of a text at which it gives something. -/
def leftmost? {α : Type} (take : Text → Option α) : Text → Option α
  | [] => take []
  | c :: rest => (take (c :: rest)).or (leftmost? take rest)

/-- Three numbers with dots between them. -/
def dotted (numbers : Text × Text × Text) : Text :=
  numbers.1 ++ '.' :: numbers.2.1 ++ '.' :: numbers.2.2

/-- The version at the leftmost place of a text at which it follows a mark. -/
def afterMarkIn? (mark text : Text) : Option Text :=
  (leftmost? (fun here => (afterMark? mark here).bind numbers?) text).map dotted

/-- The marks of a version, in the order in which they are tried. -/
def marks : List Text := ["llvm version ", "homebrew llvm version ", "version "]

/-- The version that the analyzer prints. -/
def ofText? (text : Text) : Option Text :=
  marks.findSome? fun mark => afterMarkIn? mark text

/-- The number that digits write; zero if it is not written in ASCII or has no place in a word. -/
def wordOf (digits : Text) : Nat :=
  (Text.toWord? digits).getD 0

/-- The text after a first part that it begins with. -/
def afterPart? : Text → Text → Option Text
  | [], text => some text
  | p :: part, c :: text => if c = p then afterPart? part text else none
  | _ :: _, [] => none

/-- The digits after `llvm` or `llvm@` at the front of a text. -/
def formulaMajor? (text : Text) : Option Text := do
  let rest ← afterPart? "llvm" text
  let (digits, _) ← takeDigits? (match rest with
    | '@' :: rest => rest
    | rest => rest)
  some digits

/-- The three numbers after a slash at the front of a text. -/
def directoryNumbers? (text : Text) : Option (Text × Text × Text) :=
  (afterPart? "/" text).bind numbers?

/-- The rank of an installation: the number after `llvm` or `llvm@` in its path if there is one,
and else its three numbers in one, or zero. Ranks are words. -/
def rank (path : Text) : Nat :=
  match leftmost? formulaMajor? path with
  | some major => wordOf major
  | none =>
    match leftmost? directoryNumbers? path with
    | some (major, minor, patch) =>
      (wordOf major * 10000 + wordOf minor * 100 + wordOf patch) % Text.wordLimit
    | none => 0

example : ofText? "clang 3.1.4, ubuntu LLVM Version 14.0.0-1" = some "14.0.0".toList := by decide

example : rank "/opt/homebrew/Cellar/llvm/19.1.2/bin/clang-tidy" = 190102 := by decide

end Version

end EngineUpkeep
