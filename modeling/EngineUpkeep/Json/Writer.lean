import EngineUpkeep.Json.Basic

/-!
# Writing JSON

A value is written without gaps. In strings the quote, the backslash and the control characters
are escaped; everything else stands as it is, so the text is one line (`all_escape`).
-/

namespace EngineUpkeep

namespace Json

/-- The hexadecimal digit of a number below sixteen. -/
def hexDigit (n : Nat) : Char :=
  if n < 10 then Char.ofNat (48 + n) else Char.ofNat (87 + n)

/-- A character as it is written in a string. -/
def escape (c : Char) : Text :=
  if c = '"' then ['\\', '"']
  else if c = '\\' then ['\\', '\\']
  else if c = '\x08' then ['\\', 'b']
  else if c = '\x0c' then ['\\', 'f']
  else if c = '\n' then ['\\', 'n']
  else if c = '\r' then ['\\', 'r']
  else if c = '\t' then ['\\', 't']
  else if c.toNat < 0x20 then
    ['\\', 'u', '0', '0', hexDigit (c.toNat / 16), hexDigit (c.toNat % 16)]
  else [c]

/-- A text as a string with its quotes. -/
def quote (text : Text) : Text :=
  '"' :: text.flatMap escape ++ ['"']

/-- A string as it is written. Half a surrogate pair is written as U+FFFD. -/
def quoteOption (text? : Option Text) : Text :=
  quote (text?.getD ['\uFFFD'])

mutual

/-- A value as it is written. -/
def write : Json → Text
  | .null => "null"
  | .bool true => "true"
  | .bool false => "false"
  | .number written => written
  | .string text? => quoteOption text?
  | .array items => '[' :: writeItems items ++ [']']
  | .object members => '{' :: writeMembers members ++ ['}']

/-- The items of an array with commas between them. -/
def writeItems : List Json → Text
  | [] => []
  | [item] => write item
  | item :: next :: items => write item ++ ',' :: writeItems (next :: items)

/-- A member of an object. -/
def writeMember : Option Text × Json → Text
  | (name?, value) => quoteOption name? ++ ':' :: write value

/-- The members of an object with commas between them. -/
def writeMembers : List (Option Text × Json) → Text
  | [] => []
  | [member] => writeMember member
  | member :: next :: members => writeMember member ++ ',' :: writeMembers (next :: members)

end

theorem hexDigit_ge_space : ∀ n : Nat, n < 16 → 0x20 ≤ (hexDigit n).toNat := by decide

/-- No character is written with a control character. -/
theorem all_escape (c : Char) : (escape c).all fun d => 0x20 ≤ d.toNat := by
  simp only [escape]
  repeat' split
  all_goals try decide
  · next h =>
    have hhigh := hexDigit_ge_space (c.toNat / 16) (by omega)
    have hlow := hexDigit_ge_space (c.toNat % 16) (by omega)
    simp [hhigh, hlow]
  · next h =>
    simpa using Nat.le_of_not_lt h

end Json

end EngineUpkeep
