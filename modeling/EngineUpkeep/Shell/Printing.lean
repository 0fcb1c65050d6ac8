import EngineUpkeep.Shell.Floating

/-!
# Printing of scripts

What `echo` and `printf` make of their arguments. In both a backslash can write another character,
and `\c` ends the printing. `printf` also says which of its arguments it could not use.
-/

namespace EngineUpkeep

namespace Shell

/-- A character from the octal digits. -/
def isOctal (c : Char) : Bool :=
  '0' ≤ c && c ≤ '7'

/-- The byte that octal digits write. -/
def octalByte (digits : Text) : Char :=
  Char.ofNat (digits.foldl (fun value c => value * 8 + (c.toNat - 48)) 0 % 256)

/-- Up to three octal digits at the front of a text. -/
def octalDigits (text : Text) : Text :=
  (text.take 3).takeWhile isOctal

/-- The character that a letter writes after a backslash. -/
def letterEscape? : Char → Option Char
  | '\\' => some '\\'
  | 'a' => some '\x07'
  | 'b' => some '\x08'
  | 'e' => some '\x1b'
  | 'f' => some '\x0c'
  | 'n' => some '\n'
  | 'r' => some '\r'
  | 't' => some '\t'
  | 'v' => some '\x0b'
  | _ => none

/-- A text with its escapes carried out, and whether it ends the printing. Only an argument can end
it, and there octal digits may have a zero in front. Each step takes a character. -/
def unescapeUpTo (inArgument : Bool) : Nat → Text → Text × Bool
  | 0, _ => ([], false)
  | _ + 1, [] => ([], false)
  | _ + 1, ['\\'] => (['\\'], false)
  | fuel + 1, '\\' :: c :: more =>
    let zero := inArgument && c = '0' && more.head?.any isOctal
    let digits := octalDigits (if zero then more else c :: more)
    let (made, rest) :=
      match letterEscape? c with
      | some d => (d, more)
      | none =>
        if digits = [] then ('\\', c :: more)
        else (octalByte digits, (if zero then more else c :: more).drop digits.length)
    if inArgument && c = 'c' then ([], true)
    else
      let (text, stop) := unescapeUpTo inArgument fuel rest
      (made :: text, stop)
  | fuel + 1, c :: rest =>
    let (text, stop) := unescapeUpTo inArgument fuel rest
    (c :: text, stop)

/-- A text with its escapes carried out, and whether it ends the printing. -/
def unescape (inArgument : Bool) (text : Text) : Text × Bool :=
  unescapeUpTo inArgument (text.length + 1) text

/-- What `echo` prints. -/
def echo (arguments : List Text) : Text :=
  let silent := arguments.head? = some ['-', 'n']
  let words := if silent then arguments.drop 1 else arguments
  let (text, stop) := unescape true (Text.join [' '] words)
  if silent || stop then text else text ++ ['\n']

/-- The digits of a number in a base up to sixteen. -/
def digitsIn (base : Nat) (capital : Bool) (n : Nat) : Text :=
  let digits := Nat.toDigits base n
  if capital then digits.map Char.toUpper else digits

/-- A conversion in a format, such as `%-5s`. -/
structure Conversion where
  /-- The text begins at the left. -/
  left : Bool
  /-- A number is filled up with zeros. -/
  zeros : Bool
  /-- What is written in front of a number that is not negative. -/
  sign : Text
  /-- The base of a number is shown. -/
  showsBase : Bool
  /-- The least width. -/
  width : Nat
  /-- The least number of digits, or the greatest number of characters. -/
  precision? : Option Nat
  /-- What it converts to. -/
  letter : Char

/-- The number of the first character of a text. -/
def codeOf (text : Text) : Nat :=
  (text.headD '\x00').toNat

/-- What is wrong with an argument for a number, of which this is left after the number. -/
def argumentFaults (argument after : Text) (isInRange : Bool) : List Text :=
  let complaint (text : String) : List Text := [argument ++ ": ".toList ++ text.toList]
  if after = argument && argument ≠ [] then complaint "expected numeric value"
  else if after ≠ [] then complaint "not completely converted"
  else if !isInRange then complaint "Numerical result out of range"
  else []

/-- The number of an argument, with or without sign, and what is wrong with it. A quote in front of a
character stands for the number of the character. -/
def argumentNumber (isSigned : Bool) (argument : Text) : Int × List Text :=
  match argument with
  | '\'' :: rest => (codeOf rest, [])
  | '"' :: rest => (codeOf rest, [])
  | _ =>
    let (sign, rest) := takeSign (skipSpace argument)
    let (size, after) :=
      if rest.head?.any Text.isAsciiDigit then takeNumber rest else (0, argument)
    let value := sign * size
    -- Without sign a negative number stands for the one that it wraps around to.
    let (value, isInRange) :=
      if isSigned then (max (-signLimit) (min value (signLimit - 1)), inWord value)
      else if size < Text.wordLimit then (value.emod Text.wordLimit, true)
      else (Text.wordLimit - 1, false)
    (value, argumentFaults argument after isInRange)

/-- The floating number of an argument, and what is wrong with it. -/
def argumentFloating (argument : Text) : Floating × List Text :=
  match argument with
  | '\'' :: rest => (Floating.ofNat (codeOf rest), [])
  | '"' :: rest => (Floating.ofNat (codeOf rest), [])
  | _ =>
    let (value, after, isInRange) := Floating.take argument
    (value, argumentFaults argument after isInRange)

/-- A number in a format, or the one of an argument for a star: the number, the rest of the format,
the rest of the arguments, and what is wrong with the argument. -/
def takeCount (text : Text) (arguments : List Text) : Int × Text × List Text × List Text :=
  match text with
  | '*' :: rest =>
    let (count, complaints) := argumentNumber true (arguments.headD [])
    (count, rest, arguments.drop 1, complaints)
  | _ =>
    (Text.asciiValue (text.takeWhile Text.isAsciiDigit), text.dropWhile Text.isAsciiDigit,
      arguments, [])

/-- A conversion and what comes after it. -/
structure TakenConversion where
  /-- The conversion; nothing if its letter is missing. -/
  conversion? : Option Conversion
  /-- What comes after it in the format. -/
  rest : Text
  /-- The arguments that are left. -/
  arguments : List Text
  /-- What is wrong with arguments that it used. -/
  complaints : List Text

/-- Takes a conversion after its percent sign. -/
def takeConversion (text : Text) (arguments : List Text) : TakenConversion :=
  let isFlag (c : Char) : Bool := ['#', '-', '+', ' ', '0'].contains c
  let flags := text.takeWhile isFlag
  let (width, text, arguments, early) := takeCount (text.dropWhile isFlag) arguments
  let (precision?, text, arguments, late) : Option Int × Text × List Text × List Text :=
    match text with
    | '.' :: rest =>
      let (precision, text, arguments, late) := takeCount rest arguments
      (some precision, text, arguments, late)
    | _ => (none, text, arguments, [])
  let conversion? := text.head?.map fun letter : Char =>
    { left := flags.contains '-' || width < 0, zeros := flags.contains '0'
      sign := if flags.contains '+' then ['+'] else if flags.contains ' ' then [' '] else []
      showsBase := flags.contains '#', width := width.natAbs
      -- A negative precision is none.
      precision? := (precision?.filter (0 ≤ ·)).map Int.toNat, letter }
  ⟨conversion?, text.drop 1, arguments, early ++ late⟩

/-- The least width and number of digits that nothing can be printed with. -/
def widthLimit : Nat := 0x7fffffff

namespace Conversion

/-- The text would be too wide. -/
def isTooWide (conversion : Conversion) : Bool :=
  widthLimit ≤ conversion.width || conversion.precision?.any (widthLimit ≤ ·)

/-- A text of the least width. -/
def pad (conversion : Conversion) (text : Text) : Text :=
  let blanks := List.replicate (conversion.width - text.length) ' '
  if conversion.left then text ++ blanks else blanks ++ text

/-- A number that is written as something in front of its digits. -/
def padNumber (conversion : Conversion) (front digits : Text) : Text :=
  let least := match conversion.precision? with
    | some precision => precision
    | none =>
      if conversion.zeros && !conversion.left then conversion.width - front.length else 0
  conversion.pad (front ++ List.replicate (least - digits.length) '0' ++ digits)

/-- The conversion is one of a number with sign. -/
def isSigned (conversion : Conversion) : Bool :=
  conversion.letter = 'd' || conversion.letter = 'i'

/-- The text of a number. -/
def ofNumber (conversion : Conversion) (value : Int) : Text :=
  let unsigned := value.toNat
  let written (base : Nat) (front : String) (capital : Bool) : Text :=
    conversion.padNumber (if conversion.showsBase && unsigned ≠ 0 then front.toList else [])
      (digitsIn base capital unsigned)
  match conversion.letter with
  | 'u' => written 10 "" false
  | 'o' => written 8 "0" false
  | 'x' => written 16 "0x" false
  | 'X' => written 16 "0X" true
  | _ =>
    conversion.padNumber (if value < 0 then ['-'] else conversion.sign)
      (Text.ofNat value.natAbs)

/-- The text of a floating number. -/
def ofFloating (conversion : Conversion) (value : Floating) : Text :=
  let sign := if value.isNegative then ['-'] else conversion.sign
  let places := conversion.precision?.getD 6
  let shows := conversion.showsBase
  let letter := conversion.letter.toLower
  let cased (text : Text) : Text :=
    if conversion.letter = letter then text else text.map Char.toUpper
  match value.magnitude with
  | .infinite => conversion.pad (cased (sign ++ "inf".toList))
  | .undefined => conversion.pad (cased (sign ++ "nan".toList))
  | .finite number power =>
    let ratio := Floating.ratioOf number power
    let (front, digits) : Text × Text := match letter with
      | 'f' => (sign, Floating.fixed ratio places shows)
      | 'e' => (sign, Floating.scientific ratio places shows)
      | 'g' => (sign, Floating.general ratio places shows)
      | _ =>
        (sign ++ "0x".toList, Floating.hexadecimal number power conversion.precision? shows)
    let zeros :=
      if conversion.zeros && !conversion.left then conversion.width - front.length - digits.length
      else 0
    conversion.pad (cased (front ++ List.replicate zeros '0' ++ digits))

end Conversion

/-- What `printf` prints, and what it complains about. -/
structure Printed where
  /-- The text. -/
  text : Text
  /-- The complaints. -/
  complaints : List Text
  /-- The arguments that are left. -/
  left : List Text
  /-- The printing is at its end. -/
  ended : Bool
  /-- The format is not valid. -/
  invalid : Bool

/-- What is printed with something in front. -/
def Printed.after (text : Text) (complaints : List Text) (rest : Printed) : Printed :=
  { rest with text := text ++ rest.text, complaints := complaints ++ rest.complaints }

/-- What one conversion makes of an argument, what is wrong with the argument, and whether it ends
the printing; nothing if the conversion is not known. -/
def convert? (conversion : Conversion) (argument : Text) : Option (Text × List Text × Bool) :=
  let cut (text : Text) : Text :=
    match conversion.precision? with
    | some precision => text.take precision
    | none => text
  if ['d', 'i', 'u', 'o', 'x', 'X'].contains conversion.letter then
    let (value, complaints) := argumentNumber conversion.isSigned argument
    some (conversion.ofNumber value, complaints, false)
  else if ['f', 'F', 'e', 'E', 'g', 'G', 'a', 'A'].contains conversion.letter then
    let (value, complaints) := argumentFloating argument
    some (conversion.ofFloating value, complaints, false)
  else if conversion.letter = 's' then some (conversion.pad (cut argument), [], false)
  else if conversion.letter = 'c' then
    some (conversion.pad [argument.headD '\x00'], [], false)
  else if conversion.letter = 'b' then
    let (text, stop) := unescape true argument
    some (conversion.pad (cut text), [], stop)
  else none

/-- What one pass over a format prints. Each step takes a character. -/
def formatUpTo : Nat → Text → List Text → Printed
  | 0, _, arguments => ⟨[], [], arguments, false, false⟩
  | _ + 1, [], arguments => ⟨[], [], arguments, false, false⟩
  | fuel + 1, '%' :: '%' :: rest, arguments => (formatUpTo fuel rest arguments).after ['%'] []
  | fuel + 1, '%' :: rest, arguments =>
    let taken := takeConversion rest arguments
    let (made, complaints, ends, invalid) : Text × List Text × Bool × Bool :=
      match taken.conversion? with
      | none => ([], ["missing format character".toList], true, true)
      | some conversion =>
        if conversion.isTooWide then ([], ["xvsnprintf failed".toList], true, true)
        else match convert? conversion (taken.arguments.headD []) with
        | some (made, complaints, ends) => (made, complaints, ends, false)
        | none =>
          let directive := '%' :: rest.take (rest.length - taken.rest.length)
          ([], [directive ++ ": invalid directive".toList], true, true)
    if ends then ⟨made, taken.complaints ++ complaints, [], true, invalid⟩
    else
      (formatUpTo fuel taken.rest (taken.arguments.drop 1)).after made
        (taken.complaints ++ complaints)
  | fuel + 1, '\\' :: c :: rest, arguments =>
    let escape := ('\\' :: c :: rest).take 4
    let digits := octalDigits (escape.drop 1)
    let length := if digits = [] then 2 else digits.length + 1
    let (made, _) := unescape false (escape.take length)
    (formatUpTo fuel (('\\' :: c :: rest).drop length) arguments).after made []
  | fuel + 1, c :: rest, arguments => (formatUpTo fuel rest arguments).after [c] []

/-- What `printf` prints: the format is used again as long as it takes arguments. -/
def printfUpTo (format : Text) : Nat → List Text → Printed
  | 0, arguments => ⟨[], [], arguments, false, false⟩
  | fuel + 1, arguments =>
    let first := formatUpTo (format.length + 1) format arguments
    -- A format that takes no argument is used once, whatever is left.
    if first.ended || first.left = [] || first.left.length = arguments.length then first
    else (printfUpTo format fuel first.left).after first.text first.complaints

/-- What `printf` prints. -/
def printf (format : Text) (arguments : List Text) : Printed :=
  printfUpTo format (arguments.length + 1) arguments

end Shell

end EngineUpkeep
