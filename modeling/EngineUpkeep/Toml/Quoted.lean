import EngineUpkeep.Text.Basic

/-!
# Quoted texts of TOML

A text stands between quotation marks, which allow escapes, or between apostrophes, which do not.
Between three of either it may have several lines: a line break after the opening marks does not
count, every other one is a line feed, and up to two marks more may stand before the closing ones.
-/

namespace EngineUpkeep

namespace Toml

/-- A character that may stand in a comment or between quotes: no control character but the tab. -/
def isPrintable (c : Char) : Bool :=
  c = '\t' || (0x20 ≤ c.toNat && c.toNat ≠ 0x7F)

/-- A space or a tab. -/
def isSpace (c : Char) : Bool :=
  c = ' ' || c = '\t'

/-- Takes one line break, a line feed or a carriage return with a line feed. -/
def readBreak? : Text → Option Text
  | '\n' :: rest => some rest
  | '\r' :: '\n' :: rest => some rest
  | _ => none

/-- The number that digits below `base` write. -/
def valueOf? (base : Nat) (digits : Text) : Option Nat :=
  digits.foldlM (fun value c => do
    let digit ← Text.hexValue? c
    if digit < base then some (value * base + digit) else none) 0

/-- Takes the character whose code has `count` hexadecimal digits. -/
def readCode (count : Nat) (text : Text) : Option (Char × Text) := do
  if text.length < count then none
  let value ← valueOf? 16 (text.take count)
  if value.isValidChar then some (Char.ofNat value, text.drop count) else none

/-- Takes an escape after its backslash. -/
def readEscape : Text → Option (Char × Text)
  | 'b' :: rest => some ('\x08', rest)
  | 't' :: rest => some ('\t', rest)
  | 'n' :: rest => some ('\n', rest)
  | 'f' :: rest => some ('\x0c', rest)
  | 'r' :: rest => some ('\r', rest)
  | 'e' :: rest => some ('\x1b', rest)
  | '"' :: rest => some ('"', rest)
  | '\\' :: rest => some ('\\', rest)
  | 'x' :: rest => readCode 2 rest
  | 'u' :: rest => readCode 4 rest
  | 'U' :: rest => readCode 8 rest
  | _ => none

/-- Puts a character in front of what was taken. -/
def withChar (c : Char) : Option (Text × Text) → Option (Text × Text) :=
  Option.map fun (text, after) => (c :: text, after)

/-- Takes a text up to a quotation mark. Each step takes a character of the text. -/
def readBasicUpTo : Nat → Text → Option (Text × Text)
  | 0, _ => none
  | _ + 1, [] => none
  | _ + 1, '"' :: rest => some ([], rest)
  | fuel + 1, '\\' :: rest => do
    let (c, after) ← readEscape rest
    withChar c (readBasicUpTo fuel after)
  | fuel + 1, c :: rest => if isPrintable c then withChar c (readBasicUpTo fuel rest) else none

/-- Takes a text up to an apostrophe. -/
def readLiteral : Text → Option (Text × Text)
  | [] => none
  | '\'' :: rest => some ([], rest)
  | c :: rest => if isPrintable c then withChar c (readLiteral rest) else none

/-- Takes up to two marks more behind three. -/
def readMoreMarks (mark : Char) : Text → Text × Text
  | a :: b :: rest =>
    if a ≠ mark then ([], a :: b :: rest)
    else if b ≠ mark then ([a], b :: rest)
    else ([a, b], rest)
  | [a] => if a = mark then ([a], []) else ([], [a])
  | [] => ([], [])

/-- The text without the spaces and line breaks in front. -/
def skipBlankLines : Text → Text
  | '\r' :: '\n' :: rest => skipBlankLines rest
  | c :: rest => if isSpace c || c = '\n' then skipBlankLines rest else c :: rest
  | [] => []

/-- The text after a backslash at the end of a line, and after the blanks that follow. -/
def skipLineEnd? (text : Text) : Option Text :=
  (readBreak? (text.dropWhile isSpace)).map skipBlankLines

/-- Takes a text up to three quotation marks. Each step takes a character of the text. -/
def readLongBasicUpTo : Nat → Text → Option (Text × Text)
  | 0, _ => none
  | _ + 1, [] => none
  | _ + 1, '"' :: '"' :: '"' :: rest => some (readMoreMarks '"' rest)
  | fuel + 1, '\\' :: rest =>
    -- A backslash at the end of a line joins it with the next text.
    match skipLineEnd? rest with
    | some after => readLongBasicUpTo fuel after
    | none => do
      let (c, after) ← readEscape rest
      withChar c (readLongBasicUpTo fuel after)
  | fuel + 1, '\r' :: '\n' :: rest => withChar '\n' (readLongBasicUpTo fuel rest)
  | fuel + 1, c :: rest =>
    if isPrintable c || c = '\n' then withChar c (readLongBasicUpTo fuel rest) else none

/-- Takes a text up to three apostrophes. -/
def readLongLiteral : Text → Option (Text × Text)
  | [] => none
  | '\'' :: '\'' :: '\'' :: rest => some (readMoreMarks '\'' rest)
  | '\r' :: '\n' :: rest => withChar '\n' (readLongLiteral rest)
  | c :: rest =>
    if isPrintable c || c = '\n' then withChar c (readLongLiteral rest) else none

/-- The text without a line break in front. -/
def skipBreak (text : Text) : Text :=
  (readBreak? text).getD text

/-- Takes a quoted text of one line. -/
def readShortQuoted : Text → Option (Text × Text)
  | '"' :: rest => readBasicUpTo (rest.length + 1) rest
  | '\'' :: rest => readLiteral rest
  | _ => none

/-- Takes a quoted text of one line or several. -/
def readQuoted : Text → Option (Text × Text)
  | '"' :: '"' :: '"' :: rest => readLongBasicUpTo (rest.length + 1) (skipBreak rest)
  | '\'' :: '\'' :: '\'' :: rest => readLongLiteral (skipBreak rest)
  | text => readShortQuoted text

end Toml

end EngineUpkeep
