import EngineUpkeep.Toml.Basic
import EngineUpkeep.Toml.Moment
import EngineUpkeep.Toml.Quoted

/-!
# Scalar words of TOML

A scalar word is a truth value, a moment or a number. What it begins with decides which, and a word
that is none of them is refused. Whether a number has a value is decided apart from that, since it
does not matter to a document: an integer needs digits of its base only and at most 128 bits, and a
float may not be larger than every double.
-/

namespace EngineUpkeep

namespace Toml

/-- The text without its underscores. The text before an underscore ends in a digit or is a sign
alone, and the text after one begins with a digit. -/
def joined? (isDigit : Char → Bool) (text : Text) : Option Text :=
  match Text.pieces text '_' with
  | [] => none
  | [whole] => some whole
  | first :: others =>
    let ends (piece : Text) : Bool := piece.length = 1 || piece.getLast?.any isDigit
    let begins (piece : Text) : Bool := piece.head?.any isDigit
    if ends first && others.all begins && others.dropLast.all ends then
      some (first ++ others.flatten)
    else none

/-- The sign and the text after it. -/
def splitSign : Text → Bool × Text
  | '-' :: rest => (true, rest)
  | '+' :: rest => (false, rest)
  | text => (false, text)

/-- The integer of a sign and an absolute value. -/
def signed (negative : Bool) (value : Nat) : Int :=
  if negative then -(value : Int) else value

/-- The integers that have room in 128 bits, with a sign or without. -/
def inRange (value : Int) : Bool :=
  -0x80000000000000000000000000000000 ≤ value && value < 0x100000000000000000000000000000000

/-- The number that digits of a base write. There has to be a digit. -/
def numeral? (base : Nat) (digits : Text) : Option Nat :=
  if digits = [] then none else valueOf? base digits

/-- The integer with a sign and the digits of its absolute value, if it has a value. -/
def ofDigits (written : Text) (base : Nat) (negative : Bool) (digits : Text) : Toml :=
  match numeral? base digits with
  | none => .valueless written
  | some value =>
    if inRange (signed negative value) then .integer (signed negative value)
    else .valueless written

/-- The integer of a word that has these characters after the mark of its base. -/
def based? (written : Text) (base : Nat) (marked : Text) : Option Toml := do
  let isDigit (c : Char) : Bool := (Text.hexValue? c).any (· < base)
  if !marked.all fun c => isDigit c || c = '_' then none
  let digits ← joined? isDigit marked
  some (ofDigits written base false digits)

/-- The integer of a word without the mark of a base. Between underscores only the first and the
last character have to be digits here, of any base. -/
def decimal? (written : Text) : Option Toml := do
  let joined ← joined? (fun c => (Text.hexValue? c).isSome) written
  let (negative, digits) := splitSign joined
  some (ofDigits written 10 negative digits)

/-- The text after some digits and underscores, if there is a digit among them. Unless `zeros` may
stand in front, the first of several digits is not a zero. -/
def skipDigits? (zeros : Bool) (text : Text) : Option Text :=
  let digits := text.takeWhile fun c => Text.isAsciiDigit c || c = '_'
  let count := digits.countP Text.isAsciiDigit
  if count = 0 || (!zeros && 1 < count && digits.head? = some '0') then none
  else some (text.drop digits.length)

/-- The text after a point and digits, if it begins with a point. -/
def skipFraction? : Text → Option Text
  | '.' :: rest => skipDigits? true rest
  | text => some text

/-- The text after an exponent mark, perhaps a sign, and digits, if it begins with such a mark. -/
def skipExponent? : Text → Option Text
  | [] => some []
  | mark :: rest =>
    if mark = 'e' || mark = 'E' then skipDigits? true (splitSign rest).2 else some (mark :: rest)

/-- A text without sign is digits, perhaps a fraction, and perhaps an exponent. -/
def isFloat (unsigned : Text) : Bool :=
  match skipDigits? false unsigned >>= skipFraction? >>= skipExponent? with
  | some rest => rest = []
  | none => false

/-- The smallest number that is nearer to `2 ^ 1024` than to any double. -/
def floatLimit : Nat := Nat.pow 2 1024 - Nat.pow 2 970

/-- The number `digits · 10 ^ exponent` is a double after rounding. A number with more than 400
digits before the point is not, and one with less than 300 is. -/
def fitsFloat (digits : Text) (exponent : Int) : Bool :=
  let significant := digits.dropWhile (· = '0')
  let size := (significant.length : Int) + exponent
  if significant = [] || size < 300 then true
  else if 400 < size then false
  else
    let value := Text.asciiValue significant
    if 0 ≤ exponent then value * Nat.pow 10 exponent.toNat < floatLimit
    else value < floatLimit * Nat.pow 10 (-exponent).toNat

/-- The text before the exponent mark, and the exponent. -/
def splitExponent (text : Text) : Text × Int :=
  match Text.splitOnce (Text.replaceChar text 'E' 'e') 'e' with
  | none => (text, 0)
  | some (mantissa, exponent) =>
    let (negative, digits) := splitSign exponent
    (mantissa, signed negative (Text.asciiValue digits))

/-- A float without sign and underscores is a double after rounding. -/
def isFinite (unsigned : Text) : Bool :=
  let (mantissa, exponent) := splitExponent unsigned
  match Text.splitOnce mantissa '.' with
  | none => fitsFloat mantissa exponent
  | some (whole, fraction) => fitsFloat (whole ++ fraction) (exponent - fraction.length)

/-- The float of a word, of which this much stands after the sign. -/
def float? (written unsigned : Text) : Option Toml := do
  if !isFloat unsigned then none
  let joined ← joined? Text.isAsciiDigit written
  some (if isFinite (splitSign joined).2 then .plain written else .valueless written)

/-- The moment of a word. -/
def moment? (written : Text) : Option Toml :=
  if isMoment written then some (.moment written) else none

/-- The number or moment of a word, of which this much stands after the sign. The first character
that is no digit tells which of them the word is. -/
def counted? (written unsigned : Text) : Option Toml :=
  match unsigned.dropWhile Text.isAsciiDigit with
  | [] => if unsigned.head? = some '0' then none else decimal? written
  | '-' :: _ => moment? written
  | ':' :: _ => moment? written
  | mark :: rest =>
    if (mark :: rest).contains ' ' then none
    else if (mark :: rest).any fun c => c = '.' || c = 'e' || c = 'E' then float? written unsigned
    else if mark = '_' && unsigned.head? ≠ some '0' then decimal? written
    else none

/-- The number or moment of a word after its sign, if it has one. Only an integer without sign may
have the mark of a base. -/
def unsigned? (written : Text) : Text → Option Toml
  | ['i', 'n', 'f'] => some (.plain written)
  | ['n', 'a', 'n'] => some (.plain written)
  | ['0'] => decimal? written
  | '0' :: 'x' :: marked => if written.head? = some '0' then based? written 16 marked else none
  | '0' :: 'o' :: marked => if written.head? = some '0' then based? written 8 marked else none
  | '0' :: 'b' :: marked => if written.head? = some '0' then based? written 2 marked else none
  | c :: rest =>
    if Text.isAsciiDigit c || c = '_' then counted? written (c :: rest) else none
  | [] => none

/-- The value of a scalar word. -/
def scalar? (word : Text) : Option Toml :=
  if word = ['t', 'r', 'u', 'e'] || word = ['f', 'a', 'l', 's', 'e'] then some (.plain word)
  else unsigned? word (splitSign word).2

/-- Underscores stand between digits. -/
example : (scalar? "1_000".toList).bind Toml.word? = some 1000 := by decide

/-- A zero may not stand in front of other digits. -/
example : (scalar? "010".toList).isNone = true := by decide

/-- A letter between underscores leaves a number without value. -/
example : (scalar? "1_a".toList).map Toml.isSound = some false := by decide

example : isFloat "1.5e+3".toList = true := by decide

end Toml

end EngineUpkeep
