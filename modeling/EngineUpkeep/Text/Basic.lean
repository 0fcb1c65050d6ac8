/-!
# Text

Text is a list of characters, so that every rule of the library is a rule on characters. This
module holds the operations that the other modules share: splitting at a character, searching,
replacing, and writing a number in decimal.

The pieces of a text, joined again, give the text back (`join_pieces`), and so do its lines with
their ends (`flatten_linesWithEnds`).
-/

namespace EngineUpkeep

/-- A text is the list of its characters. -/
abbrev Text := List Char

/-- A literal may stand where a text is expected. -/
instance instCoeStringText : Coe String Text := ⟨String.toList⟩

namespace Text

/-- The text before the first `mark` and the text after it, if there is one. -/
def splitOnce : Text → Char → Option (Text × Text)
  | [], _ => none
  | c :: rest, mark =>
    if c = mark then some ([], rest)
    else (splitOnce rest mark).map fun (before, after) => (c :: before, after)

/-- The pieces between the `mark`s. There is always one more piece than there are marks. -/
def pieces : Text → Char → List Text
  | [], _ => [[]]
  | c :: rest, mark =>
    if c = mark then [] :: pieces rest mark
    else match pieces rest mark with
      | [] => [[c]]
      | piece :: others => (c :: piece) :: others

/-- Several texts in one, with `mark` between neighbours. -/
def join (mark : Text) : List Text → Text
  | [] => []
  | [piece] => piece
  | piece :: next :: others => piece ++ mark ++ join mark (next :: others)

/-- The lines of a text, each with its line feed. A text that ends in a line feed has no line
after it. -/
def linesWithEnds : Text → List Text
  | [] => []
  | c :: rest =>
    if c = '\n' then ['\n'] :: linesWithEnds rest
    else match linesWithEnds rest with
      | [] => [[c]]
      | line :: others => (c :: line) :: others

/-- The text has `needle` somewhere in it. The empty needle is in every text. -/
def contains : Text → Text → Bool
  | [], needle => needle.isEmpty
  | c :: rest, needle => needle.isPrefixOf (c :: rest) || contains rest needle

/-- The text with `new` in place of every `old`. -/
def replaceChar (text : Text) (old new : Char) : Text :=
  text.map fun c => if c = old then new else c

/-- The digits of `n`, most significant first, with `fuel` bounding their number. -/
def decimalDigits : Nat → Nat → Text
  | 0, _ => []
  | fuel + 1, n =>
    if n < 10 then [Char.ofNat (48 + n)]
    else decimalDigits fuel (n / 10) ++ [Char.ofNat (48 + n % 10)]

/-- A natural number in decimal, without leading zeros. -/
def ofNat (n : Nat) : Text :=
  decimalDigits (n + 1) n

/-- An integer in decimal, with a minus sign in front when it is negative. -/
def ofInt : Int → Text
  | .ofNat n => ofNat n
  | .negSucc n => '-' :: ofNat (n + 1)

/-- A character from the ASCII digits `0` to `9`. -/
def isAsciiDigit (c : Char) : Bool :=
  '0'.toNat ≤ c.toNat && c.toNat ≤ '9'.toNat

/-- An ASCII capital in lower case; every other character stays. -/
def lowerAscii (c : Char) : Char :=
  if 'A'.toNat ≤ c.toNat && c.toNat ≤ 'Z'.toNat then Char.ofNat (c.toNat + 32) else c

/-- The number that ASCII digits write in decimal, whatever their number. -/
def asciiValue (digits : Text) : Nat :=
  digits.foldl (fun value c => value * 10 + (c.toNat - 48)) 0

/-- The value of a hexadecimal digit. -/
def hexValue? (c : Char) : Option Nat :=
  if '0' ≤ c && c ≤ '9' then some (c.toNat - 48)
  else if 'a' ≤ c && c ≤ 'f' then some (c.toNat - 87)
  else if 'A' ≤ c && c ≤ 'F' then some (c.toNat - 55)
  else none

/-- The number of words of 64 bits. -/
def wordLimit : Nat := 0x10000000000000000

/-- Reads a run of ASCII digits as a number below `wordLimit`; anything else, the empty text
included, is no number. -/
def toWord? (digits : Text) : Option Nat :=
  if digits.isEmpty || !digits.all isAsciiDigit then none
  else if asciiValue digits < wordLimit then some (asciiValue digits) else none

theorem pieces_ne_nil (text : Text) (mark : Char) : pieces text mark ≠ [] := by
  cases text with
  | nil => simp [pieces]
  | cons c rest =>
    rw [pieces]
    split
    · simp
    · split <;> simp

/-- The pieces, joined with the mark again, are the text. -/
theorem join_pieces (text : Text) (mark : Char) : join [mark] (pieces text mark) = text := by
  induction text with
  | nil => rfl
  | cons c rest ih =>
    rw [pieces]
    cases hrest : pieces rest mark with
    | nil => exact absurd hrest (pieces_ne_nil rest mark)
    | cons piece others =>
      rw [hrest] at ih
      by_cases hc : c = mark
      · simp [hc, join, ih]
      · cases others with
        | nil => simpa [hc, join] using ih
        | cons next more => simpa [hc, join] using ih

/-- The lines of a text, written one after the other, are the text. -/
theorem flatten_linesWithEnds (text : Text) : (linesWithEnds text).flatten = text := by
  induction text with
  | nil => rfl
  | cons c rest ih =>
    rw [linesWithEnds]
    split
    · next hc => simp [ih, hc]
    · cases hrest : linesWithEnds rest with
      | nil => simp_all
      | cons line others => simp_all

end Text

end EngineUpkeep
