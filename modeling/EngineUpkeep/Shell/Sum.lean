import EngineUpkeep.Shell.Script

/-!
# Sums of scripts

Expressions over integers of 64 bits: numbers, names, assignments, and the usual operators. An
expression is evaluated while it is read (`valueOfSum`), so that what is wrong with a value is
noticed before what is wrong with the text behind it. An operand that is not needed is only read.
-/

namespace EngineUpkeep

namespace Shell

/-- Why an expression has no value. -/
inductive SumFault where
  /-- An operand is missing. -/
  | missingOperand
  /-- A parenthesis is not closed. -/
  | unclosed
  /-- The second branch of a choice is missing. -/
  | missingBranch
  /-- Something follows the expression. -/
  | unexpectedRest
  /-- A number is divided by zero. -/
  | divisionByZero
  /-- A variable is no number. -/
  | notNumber (value : Text)
  /-- A variable that cannot be changed is given a value. -/
  | readOnly (name : Text)
deriving DecidableEq, Repr

/-- The text of a fault in an expression that is given as it is written. -/
def SumFault.message (written : Text) : SumFault → Text
  | missingOperand => about "expecting primary"
  | unclosed => about "expecting ')'"
  | missingBranch => about "expecting ':'"
  | unexpectedRest => about "expecting EOF"
  | divisionByZero => about "division by zero"
  | notNumber value => "Illegal number: ".toList ++ value
  | readOnly name => name ++ ": is read only".toList
where
  /-- The text of a fault that cites the expression. -/
  about (what : String) : Text :=
    ("arithmetic expression: " ++ what ++ ": \"").toList ++ written ++ ['"']

/-- The text without the blanks in front. -/
def skipGap (text : Text) : Text :=
  text.dropWhile fun c => c = ' ' || c = '\t' || c = '\n'

/-- The text without the blanks in front, of which numbers outside of sums know more. -/
def skipSpace (text : Text) : Text :=
  text.dropWhile fun c => c = ' ' || ('\t' ≤ c && c ≤ '\r')

/-- Half the number of words of 64 bits. -/
def signLimit : Int := 0x8000000000000000

/-- An integer of 64 bits with a sign. -/
def inWord (value : Int) : Bool :=
  -signLimit ≤ value && value < signLimit

/-- The integer of 64 bits with a sign that agrees with an integer in its lowest bits. -/
def wrapped (value : Int) : Int :=
  value.bmod Text.wordLimit

/-- The number at the front of a text of digits, in the base that its beginning names, and what
comes after it. -/
def takeNumber (text : Text) : Int × Text :=
  match text with
  | '0' :: x :: digit :: rest =>
    if (x = 'x' || x = 'X') && (Text.hexValue? digit).isSome then
      let digits := (digit :: rest).takeWhile fun c => (Text.hexValue? c).isSome
      let value := digits.foldl (fun (value : Nat) c => 16 * value + (Text.hexValue? c).getD 0) 0
      (value, (digit :: rest).dropWhile fun c => (Text.hexValue? c).isSome)
    else octal text
  | '0' :: _ => octal text
  | _ =>
    ((Text.asciiValue (text.takeWhile Text.isAsciiDigit) : Int), text.dropWhile Text.isAsciiDigit)
where
  /-- The octal number at the front of a text. -/
  octal (text : Text) : Int × Text :=
    let isOctal (c : Char) : Bool := '0' ≤ c && c ≤ '7'
    let value := (text.takeWhile isOctal).foldl
      (fun (value : Nat) c => 8 * value + (c.toNat - 48)) 0
    (value, text.dropWhile isOctal)

/-- The sign at the front of a text, and what comes after it. -/
def takeSign (text : Text) : Int × Text :=
  match text with
  | '-' :: rest => (-1, rest)
  | '+' :: rest => (1, rest)
  | rest => (1, rest)

/-- The number that a whole text writes. A blank text is zero. -/
def toNumber? (text : Text) : Option Int :=
  let text := skipSpace text
  let (sign, rest) := takeSign text
  if text = [] then some 0
  else if !(rest.head?.any Text.isAsciiDigit) then none
  else
    let (value, after) := takeNumber rest
    if skipSpace after = [] && inWord (sign * value) then some (sign * value) else none

/-- The decimal number that a whole text writes. -/
def toDecimal? (text : Text) : Option Int :=
  let (sign, rest) := takeSign (skipSpace text)
  let digits := rest.takeWhile Text.isAsciiDigit
  let value : Int := sign * Text.asciiValue digits
  if digits = [] || skipSpace (rest.drop digits.length) ≠ [] || !inWord value then none
  else some value

/-- The operators between two operands that are both needed, by how close they bind, the loosest
first. -/
def sumLevels : List (List Text) :=
  [["|"], ["^"], ["&"], ["==", "!="], ["<=", ">=", "<", ">"], ["<<", ">>"], ["+", "-"],
    ["*", "/", "%"]]

/-- The operators that give a variable a value. -/
def sumAssignments : List Text :=
  ["<<=", ">>=", "+=", "-=", "*=", "/=", "%=", "&=", "^=", "|=", "="]

/-- All operators that are no part of a longer one in a text that they begin, longer ones first. -/
def sumOperators : List Text :=
  ["<<=", ">>=", "||", "&&", "==", "!=", "<=", ">=", "<<", ">>", "+=", "-=", "*=", "/=", "%=", "&=",
    "^=", "|=", "|", "^", "&", "<", ">", "+", "-", "*", "/", "%", "=", "?", ":"]

/-- The operator at the front of a text, perhaps after blanks; the empty one if there is none. -/
def nextOperator (text : Text) : Text :=
  (sumOperators.find? fun operator => operator.isPrefixOf (skipGap text)).getD []

/-- One for true and zero for false. -/
def truth (value : Bool) : Int :=
  if value then 1 else 0

/-- The value of an operator between two values. A shift takes its distance modulo 64. -/
def operate (operator : Text) (a b : Int) : Except SumFault Int :=
  let word (n : Int) : Except SumFault Int := .ok (wrapped n)
  let bits (f : Nat → Nat → Nat) : Except SumFault Int :=
    word (f (a.emod Text.wordLimit).toNat (b.emod Text.wordLimit).toNat)
  match String.ofList operator with
  | "|" => bits (· ||| ·)
  | "^" => bits (· ^^^ ·)
  | "&" => bits (· &&& ·)
  | "==" => .ok (truth (a = b))
  | "!=" => .ok (truth (a ≠ b))
  | "<=" => .ok (truth (a ≤ b))
  | ">=" => .ok (truth (b ≤ a))
  | "<" => .ok (truth (a < b))
  | ">" => .ok (truth (b < a))
  | "<<" => word (a * Nat.shiftLeft 1 (b.emod 64).toNat)
  | ">>" => word (a.fdiv (Nat.shiftLeft 1 (b.emod 64).toNat))
  | "+" => word (a + b)
  | "-" => word (a - b)
  | "*" => word (a * b)
  | "/" => if b = 0 then .error .divisionByZero else word (a.tdiv b)
  | "%" => if b = 0 then .error .divisionByZero else .ok (a.tmod b)
  | _ => .ok b

/-- The variables of a script. -/
abbrev Variables := List (Text × Text)

/-- The variables with a new value of one. -/
def Variables.set (values : Variables) (name value : Text) : Variables :=
  (name, value) :: values.filter fun v => v.1 ≠ name

/-- The value of a variable in an expression. A name without value is zero. -/
def numberOf (values : Variables) (name : Text) : Except SumFault Int :=
  match values.lookup name with
  | none => .ok 0
  | some value =>
    match toNumber? value with
    | some number => .ok number
    | none => .error (.notNumber value)

/-- An expression while it is read. -/
structure Summation where
  /-- What is left of it. -/
  rest : Text
  /-- The variables. -/
  values : Variables

/-- An action that reads an expression and may find it faulty. -/
abbrev Summing := StateT Summation (Except SumFault)

namespace Summing

/-- Passes over blanks and gives what is left. -/
def look : Summing Text := do
  modify fun summation => { summation with rest := skipGap summation.rest }
  return (← get).rest

/-- Goes on after some characters. -/
def skip (count : Nat) : Summing Unit :=
  modify fun summation => { summation with rest := summation.rest.drop count }

/-- Takes one of some operators, if it is the next one. -/
def takeOperator (operators : List Text) : Summing (Option Text) := do
  let operator := nextOperator (← look)
  if operators.contains operator then
    skip operator.length
    return some operator
  else return none

/-- Takes a name and an operator behind it that gives the name a value, if they come next. -/
def takeTarget : Summing (Option (Text × Text)) := do
  let text ← look
  let name := text.takeWhile isNameChar
  let after := skipGap (text.drop name.length)
  let operator := nextOperator after
  if isName name && sumAssignments.contains operator then
    modify fun summation => { summation with rest := after.drop operator.length }
    return some (name, operator)
  else return none

/-- The value of a variable. -/
def valueOf (name : Text) : Summing Int := do
  numberOf (← get).values name

/-- Gives a variable a value, unless it is one of those that are fixed. -/
def assign (fixed : List Text) (name : Text) (value : Int) : Summing Unit := do
  if fixed.contains name then throw (.readOnly name)
  modify fun summation =>
    { summation with values := summation.values.set name (Text.ofInt value) }

mutual

/-- The value of an expression that may give a variable a value. It is only read if it is not
needed, and then its value does not count. -/
def assignment (fixed : List Text) : Nat → Bool → Summing Int
  | 0, _ => throw .missingOperand
  | fuel + 1, isNeeded => do
    match ← takeTarget with
    | none => choice fixed fuel isNeeded
    | some (name, operator) =>
      let value ← assignment fixed fuel isNeeded
      if !isNeeded then return value
      else
        -- A plain assignment does not look at the old value, which need not be a number.
        let operator := operator.dropLast
        let new ← if operator = [] then pure value else operate operator (← valueOf name) value
        assign fixed name new
        return new

/-- The value of an expression that may choose one of two branches. -/
def choice (fixed : List Text) : Nat → Bool → Summing Int
  | 0, _ => throw .missingOperand
  | fuel + 1, isNeeded => do
    let condition ← disjunction fixed fuel isNeeded
    if (← takeOperator [['?']]).isNone then return condition
    let yes ← assignment fixed fuel (isNeeded && condition ≠ 0)
    if (← takeOperator [[':']]).isNone then throw .missingBranch
    let no ← choice fixed fuel (isNeeded && condition = 0)
    return if condition ≠ 0 then yes else no

/-- The value of operands with `||` between them. -/
def disjunction (fixed : List Text) : Nat → Bool → Summing Int
  | 0, _ => throw .missingOperand
  | fuel + 1, isNeeded => do
    let first ← conjunction fixed fuel isNeeded
    if (← takeOperator [['|', '|']]).isNone then return first
    let second ← disjunction fixed fuel (isNeeded && first = 0)
    return truth (first ≠ 0 || second ≠ 0)

/-- The value of operands with `&&` between them. -/
def conjunction (fixed : List Text) : Nat → Bool → Summing Int
  | 0, _ => throw .missingOperand
  | fuel + 1, isNeeded => do
    let first ← level fixed fuel isNeeded sumLevels
    if (← takeOperator [['&', '&']]).isNone then return first
    let second ← conjunction fixed fuel (isNeeded && first ≠ 0)
    return truth (first ≠ 0 && second ≠ 0)

/-- The value of operands with operators between them that bind at least as close as the given
ones. -/
def level (fixed : List Text) : Nat → Bool → List (List Text) → Summing Int
  | 0, _, _ => throw .missingOperand
  | fuel + 1, isNeeded, [] => operand fixed fuel isNeeded
  | fuel + 1, isNeeded, operators :: closer => do
    let first ← level fixed fuel isNeeded closer
    moreOf fixed fuel isNeeded operators closer first

/-- The value of a first operand and further ones with operators of one level in front of each. -/
def moreOf (fixed : List Text) :
    Nat → Bool → List Text → List (List Text) → Int → Summing Int
  | 0, _, _, _, _ => throw .missingOperand
  | fuel + 1, isNeeded, operators, closer, first => do
    match ← takeOperator operators with
    | none => return first
    | some operator =>
      let second ← level fixed fuel isNeeded closer
      let value ← if isNeeded then operate operator first second else pure second
      moreOf fixed fuel isNeeded operators closer value

/-- The value of a number, a name, an operand with an operator in front, or an expression in
parentheses. -/
def operand (fixed : List Text) : Nat → Bool → Summing Int
  | 0, _ => throw .missingOperand
  | fuel + 1, isNeeded => do
    let text ← look
    match text with
    | '(' :: _ =>
      skip 1
      let value ← assignment fixed fuel isNeeded
      match ← look with
      | ')' :: _ =>
        skip 1
        return value
      | _ => throw .unclosed
    | c :: _ =>
      if ['-', '+', '!', '~'].contains c then
        skip 1
        let value ← operand fixed fuel isNeeded
        return match c with
          | '-' => wrapped (-value)
          | '!' => truth (value = 0)
          | '~' => -value - 1
          | _ => value
      else if Text.isAsciiDigit c then
        let (value, after) := takeNumber text
        modify fun summation => { summation with rest := after }
        -- A number that is too large stands for the largest one.
        return min value (signLimit - 1)
      else if startsName c then
        let name := text.takeWhile isNameChar
        skip name.length
        if isNeeded then valueOf name else return 0
      else throw .missingOperand
    | [] => throw .missingOperand

end

end Summing

/-- The value of the expression that a whole text writes, and the variables that it leaves. Some
variables are fixed. -/
def valueOfSum (fixed : List Text) (values : Variables) (text : Text) :
    Except SumFault (Int × Variables) := do
  let reading := Summing.assignment fixed (20 * text.length + 20) true
  let (value, after) ← reading.run { rest := text, values }
  if skipGap after.rest = [] then return (value, after.values) else throw .unexpectedRest

end Shell

end EngineUpkeep
