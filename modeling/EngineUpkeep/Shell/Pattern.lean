import EngineUpkeep.Text.Basic

/-!
# Patterns of scripts

In a pattern `*` stands for any characters, `?` for one, and brackets for one of some characters,
which can be given by ranges or by classes such as `[:digit:]`. A quoted character stands for
itself, and so does one after a backslash.
-/

namespace EngineUpkeep

namespace Shell

/-- A character of a pattern, and whether it is quoted. -/
abbrev PatternChar := Char × Bool

/-- The text and the texts that are left when characters are taken off its front. -/
def suffixes : Text → List Text
  | [] => [[]]
  | c :: rest => (c :: rest) :: suffixes rest

/-- What is written between brackets. -/
inductive BracketItem where
  /-- The characters from one to another. -/
  | range (first last : Char)
  /-- The characters of a class. -/
  | named (name : Text)
deriving DecidableEq, Repr

/-- One element of a pattern. -/
inductive Glob where
  /-- The character itself. -/
  | exactly (c : Char)
  /-- Any one character. -/
  | one
  /-- Any characters. -/
  | many
  /-- One character that one of the items, or none of them, stands for. -/
  | oneOf (negated : Bool) (items : List BracketItem)
deriving DecidableEq, Repr

/-- The names of the classes of characters. -/
def classNames : List Text :=
  ["alnum", "cntrl", "lower", "space", "alpha", "digit", "print", "upper", "blank", "graph",
    "punct", "xdigit"]

/-- The ASCII character is in a class. -/
def isInClass (name : Text) (c : Char) : Bool :=
  let isGraphic := '!' ≤ c && c ≤ '~'
  match String.ofList name with
  | "alnum" => c.isAlphanum
  | "cntrl" => c < ' ' || c = '\x7f'
  | "lower" => c.isLower
  | "space" => c = ' ' || ('\t' ≤ c && c ≤ '\r')
  | "alpha" => c.isAlpha
  | "digit" => c.isDigit
  | "print" => isGraphic || c = ' '
  | "upper" => c.isUpper
  | "blank" => c = ' ' || c = '\t'
  | "graph" => isGraphic
  | "punct" => isGraphic && !c.isAlphanum
  | "xdigit" => (Text.hexValue? c).isSome
  | _ => false

/-- The item stands for a character. -/
def BracketItem.holds (c : Char) : BracketItem → Bool
  | range first last => first ≤ c && c ≤ last
  | named name => isInClass name c

/-- The pattern with a quoted character for each one after a backslash. -/
def withoutBackslashes : List PatternChar → List PatternChar
  | ('\\', false) :: (c, _) :: rest => (c, true) :: withoutBackslashes rest
  | c :: rest => c :: withoutBackslashes rest
  | [] => []

/-- The class at the front of a pattern, after its first bracket, and what comes after it. -/
def takeClass? (chars : List PatternChar) : Option (Text × List PatternChar) :=
  classNames.findSome? fun name =>
    let written := ((':' :: name) ++ [':', ']']).map fun c => (c, false)
    if written.isPrefixOf chars then some (name, chars.drop written.length) else none

/-- The items up to the closing bracket, and what comes after it. A bracket that comes first does
not close. Each step takes a character. -/
def bracketItems? : Nat → Bool → List PatternChar → Option (List BracketItem × List PatternChar)
  | 0, _, _ => none
  | _ + 1, _, [] => none
  | fuel + 1, isFirst, (c, quoted) :: rest =>
    let followed (item : BracketItem) (rest : List PatternChar) :=
      (bracketItems? fuel false rest).map fun (items, after) => (item :: items, after)
    if c = ']' && !quoted && !isFirst then some ([], rest)
    else match if c = '[' && !quoted then takeClass? rest else none with
      | some (name, after) => followed (.named name) after
      | none =>
        match rest with
        | ('-', false) :: (last, isQuoted) :: after =>
          if last = ']' && !isQuoted then followed (.range c c) rest
          else followed (.range c last) after
        | _ => followed (.range c c) rest

/-- The elements of a pattern without backslashes. Each step takes a character. -/
def globsUpTo : Nat → List PatternChar → List Glob
  | 0, _ => []
  | _ + 1, [] => []
  | fuel + 1, ('*', false) :: rest => .many :: globsUpTo fuel rest
  | fuel + 1, ('?', false) :: rest => .one :: globsUpTo fuel rest
  | fuel + 1, ('[', false) :: rest =>
    let negated := rest.head? = some ('!', false)
    match bracketItems? (rest.length + 1) true (if negated then rest.drop 1 else rest) with
    | some (items, after) => .oneOf negated items :: globsUpTo fuel after
    -- A bracket that is never closed stands for itself.
    | none => .exactly '[' :: globsUpTo fuel rest
  | fuel + 1, (c, _) :: rest => .exactly c :: globsUpTo fuel rest

/-- The elements of a pattern. -/
def globsOf (pattern : List PatternChar) : List Glob :=
  globsUpTo pattern.length (withoutBackslashes pattern)

/-- The elements match the whole text. -/
def globsMatch : List Glob → Text → Bool
  | [], text => text.isEmpty
  | .many :: globs, text => (suffixes text).any (globsMatch globs)
  | .exactly c :: globs, text =>
    match text with
    | [] => false
    | d :: rest => c = d && globsMatch globs rest
  | .one :: globs, text =>
    match text with
    | [] => false
    | _ :: rest => globsMatch globs rest
  | .oneOf negated items :: globs, text =>
    match text with
    | [] => false
    | d :: rest => items.any (BracketItem.holds d) ≠ negated && globsMatch globs rest

/-- A pattern matches the whole text. -/
def patternMatches (pattern : List PatternChar) (text : Text) : Bool :=
  globsMatch (globsOf pattern) text

/-- The places in a text, from the left up to its first NUL, or from the right. -/
def placesIn (text : Text) (fromLeft : Bool) : List Nat :=
  if fromLeft then List.range ((text.takeWhile (· ≠ '\x00')).length + 1)
  else (List.range (text.length + 1)).reverse

/-- A pattern matches a text up to its first NUL. -/
def matchesUpToNul (pattern : List PatternChar) (text : Text) : Bool :=
  patternMatches pattern (text.takeWhile (· ≠ '\x00'))

/-- The text without its shortest or longest beginning that a pattern matches. -/
def dropMatchingStart (longest : Bool) (pattern : List PatternChar) (text : Text) : Text :=
  match (placesIn text !longest).find? fun n => matchesUpToNul pattern (text.take n) with
  | some n => text.drop n
  | none => text

/-- The text without its shortest or longest end that a pattern matches. -/
def dropMatchingEnd (longest : Bool) (pattern : List PatternChar) (text : Text) : Text :=
  match (placesIn text longest).find? fun n => matchesUpToNul pattern (text.drop n) with
  | some n => text.take n
  | none => text

end Shell

end EngineUpkeep
