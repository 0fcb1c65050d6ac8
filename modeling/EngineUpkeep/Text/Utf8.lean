import EngineUpkeep.Text.Basic

/-!
# UTF-8

Writing a text as bytes and reading bytes as text. Bytes from elsewhere need not be UTF-8: a
lenient reading puts U+FFFD in place of each ill-formed stretch, a strict one refuses.

An ill-formed stretch is a longest beginning of a character's bytes that cannot go on, or one byte
that can begin no character.
-/

namespace EngineUpkeep

namespace Utf8

/-- The bytes of a text. -/
def encode (text : Text) : List UInt8 :=
  text.flatMap String.utf8EncodeChar

/-- The byte can follow the first byte of a character. -/
def isContinuation (b : UInt8) : Bool :=
  0x80 ≤ b && b ≤ 0xBF

/-- The low six bits of a byte that follows. -/
def payload (b : UInt8) : Nat :=
  b.toNat - 0x80

/-- The bytes that can come second in a character of three bytes that begins with `first`. -/
def isSecondOfThree (first second : UInt8) : Bool :=
  if first = 0xE0 then 0xA0 ≤ second && second ≤ 0xBF
  else if first = 0xED then 0x80 ≤ second && second ≤ 0x9F
  else isContinuation second

/-- The bytes that can come second in a character of four bytes that begins with `first`. -/
def isSecondOfFour (first second : UInt8) : Bool :=
  if first = 0xF0 then 0x90 ≤ second && second ≤ 0xBF
  else if first = 0xF4 then 0x80 ≤ second && second ≤ 0x8F
  else isContinuation second

/-- Takes one character, or one ill-formed stretch as `none`, off the front of the bytes. -/
def takeChar (first : UInt8) (rest : List UInt8) : Option Char × List UInt8 :=
  if first < 0x80 then (some (Char.ofNat first.toNat), rest)
  else if 0xC2 ≤ first && first ≤ 0xDF then
    match rest with
    | second :: after =>
      if isContinuation second then
        (some (Char.ofNat ((first.toNat - 0xC0) * 64 + payload second)), after)
      else (none, rest)
    | [] => (none, [])
  else if 0xE0 ≤ first && first ≤ 0xEF then
    match rest with
    | second :: third :: after =>
      if !isSecondOfThree first second then (none, rest)
      else if !isContinuation third then (none, third :: after)
      else
        (some (Char.ofNat ((first.toNat - 0xE0) * 4096 + payload second * 64 + payload third)),
          after)
    | [second] => if isSecondOfThree first second then (none, []) else (none, [second])
    | [] => (none, [])
  else if 0xF0 ≤ first && first ≤ 0xF4 then
    match rest with
    | second :: third :: fourth :: after =>
      if !isSecondOfFour first second then (none, rest)
      else if !isContinuation third then (none, third :: fourth :: after)
      else if !isContinuation fourth then (none, fourth :: after)
      else
        (some (Char.ofNat ((first.toNat - 0xF0) * 262144 + payload second * 4096 +
          payload third * 64 + payload fourth)), after)
    | [second, third] =>
      if !isSecondOfFour first second then (none, [second, third])
      else if !isContinuation third then (none, [third])
      else (none, [])
    | [second] => if isSecondOfFour first second then (none, []) else (none, [second])
    | [] => (none, [])
  else (none, rest)

/-- The characters of the bytes in order, `none` for each ill-formed stretch. One character takes
at least one byte, so as many steps as there are bytes are enough. -/
def scan : Nat → List UInt8 → List (Option Char)
  | 0, _ => []
  | _ + 1, [] => []
  | fuel + 1, first :: rest =>
    let (c?, after) := takeChar first rest
    c? :: scan fuel after

/-- The bytes as text, with U+FFFD for each ill-formed stretch. -/
def decodeLenient (bytes : List UInt8) : Text :=
  (scan bytes.length bytes).map (·.getD '\uFFFD')

/-- The bytes as text, if all of them are well formed. -/
def decode? (bytes : List UInt8) : Option Text :=
  (scan bytes.length bytes).mapM id

example : decode? (encode ['a', 'é', '日', '😀']) = some ['a', 'é', '日', '😀'] := by decide

example : decodeLenient [0xE2, 0x82, 0x78, 0xFF] = ['\uFFFD', 'x', '\uFFFD'] := by decide

end Utf8

end EngineUpkeep
