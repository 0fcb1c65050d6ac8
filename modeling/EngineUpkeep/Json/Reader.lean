import EngineUpkeep.Json.Basic

/-!
# Reading JSON

The reader takes a value off the front of a text. It accepts the grammar of JSON and nothing else:
four blanks, no leading zeros, no raw control characters in strings, nothing after the value.

A string is read in two steps: first its marks, each a character or a code written `\u`, then the
text that the marks make, in which two codes of a surrogate pair are one character.
-/

namespace EngineUpkeep

namespace Json

/-- A character that may stand between the parts of a document. -/
def isGap (c : Char) : Bool :=
  c = ' ' || c = '\n' || c = '\t' || c = '\r'

/-- The text from its first character that is not a gap. -/
def skipGaps (text : Text) : Text :=
  text.dropWhile isGap

/-- One element of a written string. -/
inductive Mark where
  /-- A character. -/
  | char (c : Char)
  /-- A code of sixteen bits. -/
  | code (value : Nat)
deriving DecidableEq, Repr

/-- The number that four hexadecimal digits write. -/
def hexCode? (a b c d : Char) : Option Nat := do
  let a ← Text.hexValue? a
  let b ← Text.hexValue? b
  let c ← Text.hexValue? c
  let d ← Text.hexValue? d
  some (((a * 16 + b) * 16 + c) * 16 + d)

/-- The character that a backslash and a letter write. -/
def escaped? : Char → Option Char
  | '"' => some '"'
  | '\\' => some '\\'
  | '/' => some '/'
  | 'b' => some '\x08'
  | 'f' => some '\x0c'
  | 'n' => some '\n'
  | 'r' => some '\r'
  | 't' => some '\t'
  | _ => none

/-- Takes the marks of a string up to its closing quote. -/
def readMarks : Text → Option (List Mark × Text)
  | [] => none
  | '"' :: rest => some ([], rest)
  | '\\' :: 'u' :: a :: b :: c :: d :: rest => do
    let value ← hexCode? a b c d
    let (marks, after) ← readMarks rest
    some (.code value :: marks, after)
  | '\\' :: letter :: rest => do
    let c ← escaped? letter
    let (marks, after) ← readMarks rest
    some (.char c :: marks, after)
  | c :: rest => do
    -- A backslash with nothing behind it comes here as well.
    if c.toNat < 0x20 || c = '\\' then none
    let (marks, after) ← readMarks rest
    some (.char c :: marks, after)

/-- The first code of a surrogate pair. -/
def isHigh (code : Nat) : Bool :=
  0xD800 ≤ code && code ≤ 0xDBFF

/-- The second code of a surrogate pair. -/
def isLow (code : Nat) : Bool :=
  0xDC00 ≤ code && code ≤ 0xDFFF

/-- The text that marks make, if no half of a surrogate pair stands alone. -/
def textOf? : List Mark → Option Text
  | [] => some []
  | .char c :: rest => (textOf? rest).map (c :: ·)
  | .code high :: .code low :: rest =>
    if isHigh high && isLow low then
      (textOf? rest).map
        (Char.ofNat (0x10000 + (high - 0xD800) * 0x400 + (low - 0xDC00)) :: ·)
    -- Half a pair is never completed by a code that comes later.
    else if isHigh high || isLow high then none
    else (textOf? (.code low :: rest)).map (Char.ofNat high :: ·)
  | .code value :: rest =>
    if isHigh value || isLow value then none
    else (textOf? rest).map (Char.ofNat value :: ·)

/-- Takes a string after its opening quote. -/
def readString (text : Text) : Option (Option Text × Text) :=
  (readMarks text).map fun (marks, after) => (textOf? marks, after)

/-- Takes one or more digits. -/
def readDigits (text : Text) : Option (Text × Text) :=
  if text.takeWhile Text.isAsciiDigit = [] then none
  else some (text.takeWhile Text.isAsciiDigit, text.dropWhile Text.isAsciiDigit)

/-- Takes the whole part of a number: a zero, or digits of which the first is no zero. -/
def readWhole : Text → Option (Text × Text)
  | '0' :: rest => some (['0'], rest)
  | text => readDigits text

/-- Takes the fraction of a number, if there is one. -/
def readFraction : Text → Option (Text × Text)
  | '.' :: rest => (readDigits rest).map fun (digits, after) => ('.' :: digits, after)
  | text => some ([], text)

/-- Takes the sign of an exponent, if there is one. -/
def readSign : Text → Text × Text
  | '+' :: rest => (['+'], rest)
  | '-' :: rest => (['-'], rest)
  | text => ([], text)

/-- Takes the exponent of a number, if there is one. -/
def readExponent : Text → Option (Text × Text)
  | c :: rest =>
    if c = 'e' || c = 'E' then
      let (sign, digits) := readSign rest
      (readDigits digits).map fun (digits, after) => (c :: sign ++ digits, after)
    else some ([], c :: rest)
  | [] => some ([], [])

/-- Takes a number without its sign. -/
def readUnsigned (text : Text) : Option (Text × Text) := do
  let (whole, rest) ← readWhole text
  let (fraction, rest) ← readFraction rest
  let (exponent, rest) ← readExponent rest
  some (whole ++ fraction ++ exponent, rest)

/-- Takes a number. -/
def readNumber : Text → Option (Text × Text)
  | '-' :: rest => (readUnsigned rest).map fun (written, after) => ('-' :: written, after)
  | text => readUnsigned text

/-- Takes a value that is neither a string, an array nor an object. -/
def readPlain (text : Text) : Option (Json × Text) :=
  match text with
  | 'n' :: 'u' :: 'l' :: 'l' :: rest => some (.null, rest)
  | 't' :: 'r' :: 'u' :: 'e' :: rest => some (.bool true, rest)
  | 'f' :: 'a' :: 'l' :: 's' :: 'e' :: rest => some (.bool false, rest)
  | _ => (readNumber text).map fun (written, after) => (.number written, after)

mutual

/-- Takes a value that begins with the first character. -/
def readValue : Nat → Text → Option (Json × Text)
  | 0, _ => none
  | fuel + 1, '[' :: rest =>
    match skipGaps rest with
    | ']' :: after => some (.array [], after)
    | start => (readItems fuel start).map fun (items, after) => (.array items, after)
  | fuel + 1, '{' :: rest =>
    match skipGaps rest with
    | '}' :: after => some (.object [], after)
    | start => (readMembers fuel start).map fun (members, after) => (.object members, after)
  | _ + 1, '"' :: rest => (readString rest).map fun (text?, after) => (.string text?, after)
  | _ + 1, text => readPlain text

/-- Takes the items of an array up to its closing bracket. -/
def readItems : Nat → Text → Option (List Json × Text)
  | 0, _ => none
  | fuel + 1, text => do
    let (item, rest) ← readValue fuel text
    match skipGaps rest with
    | ']' :: after => some ([item], after)
    | ',' :: next =>
      let (items, after) ← readItems fuel (skipGaps next)
      some (item :: items, after)
    | _ => none

/-- Takes the members of an object up to its closing brace. -/
def readMembers : Nat → Text → Option (List (Option Text × Json) × Text)
  | 0, _ => none
  | fuel + 1, '"' :: text => do
    let (name?, rest) ← readString text
    match skipGaps rest with
    | ':' :: start =>
      let (value, rest) ← readValue fuel (skipGaps start)
      match skipGaps rest with
      | '}' :: after => some ([(name?, value)], after)
      | ',' :: next =>
        let (members, after) ← readMembers fuel (skipGaps next)
        some ((name?, value) :: members, after)
      | _ => none
    | _ => none
  | _ + 1, _ => none

end

/-- Reads a document: one value with gaps around it. Each step of the reader takes a character or
is followed by one that does, which bounds their number by twice the length. -/
def read? (text : Text) : Option Json :=
  match readValue (2 * text.length + 2) (skipGaps text) with
  | some (value, rest) => if skipGaps rest = [] then some value else none
  | none => none

end Json

end EngineUpkeep
