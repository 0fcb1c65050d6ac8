import EngineUpkeep.Shell.Sum

/-!
# Floating numbers

A floating number is zero or a number of 53 bits times a power of two, which is at least
`leastPower`; it can also be infinite, or no number at all. A text writes the floating number that
is nearest to its value, and of two such numbers the even one (`Floating.take`). A floating number
is written with all digits that are asked for, since its value has a decimal form that ends
(`Floating.fixed`, `Floating.scientific`).
-/

namespace EngineUpkeep

namespace Shell

/-- A quotient rounded to the nearest number, and a half to the even one. -/
def roundedQuotient (numerator denominator : Nat) : Nat :=
  let quotient := numerator / denominator
  let twice := 2 * (numerator % denominator)
  if denominator < twice || (twice = denominator && quotient % 2 = 1) then quotient + 1
  else quotient

/-- A quotient that is not negative. -/
structure Ratio where
  /-- What is divided. -/
  numerator : Nat
  /-- By what it is divided. -/
  denominator : Nat
deriving DecidableEq, Repr

namespace Ratio

/-- The quotient times a power of a base. -/
def scaled (ratio : Ratio) (base : Nat) (exponent : Int) : Ratio :=
  match exponent with
  | .ofNat n => ⟨ratio.numerator * Nat.pow base n, ratio.denominator⟩
  | .negSucc n => ⟨ratio.numerator, ratio.denominator * Nat.pow base (n + 1)⟩

/-- The quotient rounded to a number. -/
def rounded (ratio : Ratio) : Nat :=
  roundedQuotient ratio.numerator ratio.denominator

/-- The greatest exponent for which a power of a base is not greater than the quotient, where the
lengths of both of its numbers in that base are given. -/
def exponentIn (ratio : Ratio) (base numeratorLength denominatorLength : Nat) : Int :=
  let guess : Int := numeratorLength - denominatorLength
  let divided := ratio.scaled base (-guess)
  if divided.denominator ≤ divided.numerator then guess else guess - 1

/-- The exponent in base two. -/
def binaryExponent (ratio : Ratio) : Int :=
  ratio.exponentIn 2 ratio.numerator.log2 ratio.denominator.log2

/-- The exponent in base ten. -/
def decimalExponent (ratio : Ratio) : Int :=
  ratio.exponentIn 10 (Nat.toDigits 10 ratio.numerator).length
    (Nat.toDigits 10 ratio.denominator).length

end Ratio

/-- The size of a floating number. -/
inductive Magnitude where
  /-- A number times a power of two. -/
  | finite (number : Nat) (power : Int)
  /-- No end. -/
  | infinite
  /-- Not a number. -/
  | undefined
deriving DecidableEq, Repr

/-- A floating number. -/
structure Floating where
  /-- It has a minus sign. -/
  isNegative : Bool
  /-- Its size. -/
  magnitude : Magnitude
deriving DecidableEq, Repr

namespace Floating

/-- The bits of a number. -/
def precision : Nat := 53

/-- The least exponent of the power of two. -/
def leastPower : Int := -1074

/-- The greatest exponent of the power of two. -/
def greatestPower : Int := 971

/-- The size that is nearest to a quotient, and whether there is one with all of its bits or without
an error. -/
def nearest (ratio : Ratio) : Magnitude × Bool :=
  if ratio.numerator = 0 then (.finite 0 leastPower, true)
  else
    let power := max leastPower (ratio.binaryExponent - (precision - 1))
    let divided := ratio.scaled 2 (-power)
    let number := divided.rounded
    let isExact := divided.numerator % divided.denominator = 0
    let isFull := Nat.pow 2 (precision - 1) ≤ number
    let (number, power) :=
      if number = Nat.pow 2 precision then (number / 2, power + 1) else (number, power)
    if greatestPower < power then (.infinite, false)
    else (.finite number power, isFull || isExact)

/-- The floating number that is nearest to a number. -/
def ofNat (number : Nat) : Floating :=
  ⟨false, (nearest ⟨number, 1⟩).1⟩

/-- A decimal or hexadecimal number that a text begins with. -/
structure Numeral where
  /-- Its digits as one number. -/
  digits : Nat
  /-- How many digits stand behind the point. -/
  places : Nat
  /-- What comes after the digits. -/
  rest : Text

/-- Takes digits, perhaps with a point among them. -/
def takeNumeral? (base : Nat) (valueOf : Char → Option Nat) (text : Text) : Option Numeral :=
  let isDigit (c : Char) : Bool := (valueOf c).isSome
  let front := text.takeWhile isDigit
  let after := text.drop front.length
  let back := if after.head? = some '.' then (after.drop 1).takeWhile isDigit else []
  let rest := if after.head? = some '.' then after.drop (1 + back.length) else after
  if front = [] && back = [] then none
  else
    let value (digits : Text) : Nat :=
      digits.foldl (fun value c => base * value + (valueOf c).getD 0) 0
    some ⟨value (front ++ back), back.length, rest⟩

/-- The exponent after a letter, and what comes after it; none if digits are missing. -/
def takeExponent (letter : Char) (text : Text) : Int × Text :=
  match text with
  | c :: rest =>
    let (sign, digits) : Int × Text := match rest with
      | '-' :: digits => (-1, digits)
      | '+' :: digits => (1, digits)
      | _ => (1, rest)
    let run := digits.takeWhile Text.isAsciiDigit
    if c.toLower = letter && run ≠ [] then
      (sign * (Text.asciiValue run : Int), digits.drop run.length)
    else (0, text)
  | [] => (0, text)

/-- No exponent has to be told from a greater one that is beyond this one. -/
def exponentLimit : Nat := 100000

/-- The size that digits with an exponent write, and whether it is in range. -/
def sizeOf (numeral : Numeral) (base exponentBase : Nat) (exponent : Int) : Magnitude × Bool :=
  let ratio := (Ratio.mk numeral.digits 1).scaled base (-numeral.places)
  if numeral.digits = 0 then (.finite 0 leastPower, true)
  else if exponent.natAbs ≤ exponentLimit then nearest (ratio.scaled exponentBase exponent)
  else if 0 < exponent then (.infinite, false)
  else (.finite 0 leastPower, false)

/-- The value of a digit. -/
def digit? (c : Char) : Option Nat :=
  if Text.isAsciiDigit c then some (c.toNat - 48) else none

/-- A text begins with a word in any case. -/
def beginsWith (word : String) (text : Text) : Bool :=
  (text.take word.length).map Char.toLower = word.toList

/-- What comes after a word that says that there is no number, with a note in brackets. -/
def afterNote (text : Text) : Text :=
  match text with
  | '(' :: rest =>
    let note := rest.takeWhile isNameChar
    if (rest.drop note.length).head? = some ')' then rest.drop (note.length + 1) else text
  | _ => text

/-- The floating number that a text begins with, what comes after it, and whether it is in range. A
text that begins with none is zero. -/
def take (text : Text) : Floating × Text × Bool :=
  let (sign, rest) := takeSign (skipSpace text)
  let made (magnitude : Magnitude) (rest : Text) (isInRange : Bool) : Floating × Text × Bool :=
    (⟨sign < 0, magnitude⟩, rest, isInRange)
  if beginsWith "infinity" rest then made .infinite (rest.drop 8) true
  else if beginsWith "inf" rest then made .infinite (rest.drop 3) true
  else if beginsWith "nan" rest then made .undefined (afterNote (rest.drop 3)) true
  else
    let hexadecimal? :=
      if beginsWith "0x" rest then takeNumeral? 16 Text.hexValue? (rest.drop 2) else none
    match hexadecimal?, takeNumeral? 10 digit? rest with
    | some numeral, _ =>
      let (exponent, rest) := takeExponent 'p' numeral.rest
      let (magnitude, isInRange) := sizeOf numeral 16 2 exponent
      made magnitude rest isInRange
    | none, some numeral =>
      let (exponent, rest) := takeExponent 'e' numeral.rest
      let (magnitude, isInRange) := sizeOf numeral 10 10 exponent
      made magnitude rest isInRange
    | none, none => (⟨false, .finite 0 leastPower⟩, text, true)

/-- The value of a size. -/
def ratioOf (number : Nat) (power : Int) : Ratio :=
  (Ratio.mk number 1).scaled 2 power

/-- A number with so many of its digits behind a point. The point can be shown with none behind it.
-/
def pointed (digits : Text) (places : Nat) (showsPoint : Bool) : Text :=
  let digits := List.replicate (places + 1 - digits.length) '0' ++ digits
  let front := digits.take (digits.length - places)
  let back := digits.drop (digits.length - places)
  front ++ (if back ≠ [] || showsPoint then '.' :: back else [])

/-- A number with so many places behind the point. -/
def fixed (ratio : Ratio) (places : Nat) (showsPoint : Bool) : Text :=
  pointed (Text.ofNat (ratio.scaled 10 places).rounded) places showsPoint

/-- One digit and so many places behind the point as one number, and the exponent in base ten. -/
def scientificParts (ratio : Ratio) (places : Nat) : Nat × Int :=
  if ratio.numerator = 0 then (0, 0)
  else
    let exponent := ratio.decimalExponent
    let digits := (ratio.scaled 10 (places - exponent)).rounded
    if digits = Nat.pow 10 (places + 1) then (digits / 10, exponent + 1) else (digits, exponent)

/-- An exponent after a letter, with a sign and so many digits at least. -/
def exponentText (letter : Char) (least : Nat) (exponent : Int) : Text :=
  let digits := Text.ofNat exponent.natAbs
  letter :: (if exponent < 0 then '-' else '+') ::
    List.replicate (least - digits.length) '0' ++ digits

/-- A number with one digit before the point and so many behind it, and an exponent. -/
def scientific (ratio : Ratio) (places : Nat) (showsPoint : Bool) : Text :=
  let (digits, exponent) := scientificParts ratio places
  pointed (Text.ofNat digits) places showsPoint ++ exponentText 'e' 2 exponent

/-- A number without zeros at the end of its places. -/
def trimmed (text : Text) : Text :=
  if '.' ∉ text then text
  else
    let kept := (text.reverse.dropWhile (· = '0')).reverse
    if kept.getLast? = some '.' then kept.dropLast else kept

/-- A number with so many digits, in the shorter of both forms. The zeros at its end can be kept. -/
def general (ratio : Ratio) (digits : Nat) (keepsZeros : Bool) : Text :=
  let digits := max 1 digits
  let (_, exponent) := scientificParts ratio (digits - 1)
  if -4 ≤ exponent && exponent < digits then
    let text := fixed ratio (digits - 1 - exponent).toNat keepsZeros
    if keepsZeros then text else trimmed text
  else
    let text := scientific ratio (digits - 1) keepsZeros
    if keepsZeros then text
    else
      let number := text.takeWhile (· ≠ 'e')
      trimmed number ++ text.drop number.length

/-- A number in base sixteen with an exponent of two, behind its mark. Without a number of places it
has as many as it needs. -/
def hexadecimal (number : Nat) (power : Int) (places? : Option Nat) (showsPoint : Bool) : Text :=
  let allPlaces := (precision - 1) / 4
  let exponent : Int := if number = 0 then 0 else power + (precision - 1)
  let digitsOf (n places : Nat) : Text :=
    let digits := Nat.toDigits 16 n
    List.replicate (places + 1 - digits.length) '0' ++ digits
  let number := match places? with
    | some places =>
      pointed (digitsOf (roundedQuotient (number * Nat.pow 16 places) (Nat.pow 16 allPlaces))
        places) places showsPoint
    | none =>
      let text := trimmed (pointed (digitsOf number allPlaces) allPlaces false)
      if showsPoint && '.' ∉ text then text ++ ['.'] else text
  number ++ exponentText 'p' 1 exponent

end Floating

end Shell

end EngineUpkeep
