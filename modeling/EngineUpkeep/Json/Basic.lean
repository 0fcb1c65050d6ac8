import EngineUpkeep.Text.Basic

/-!
# JSON values

A value keeps what a document says: the members of an object in order and with repetitions, a number
as it is written. An escape can write half of a surrogate pair, which is no character, so a string
is known to be text only if all its escapes are.
-/

namespace EngineUpkeep

/-- A JSON value. -/
inductive Json where
  /-- The value `null`. -/
  | null
  /-- A truth value. -/
  | bool (value : Bool)
  /-- A number, as it is written. -/
  | number (written : Text)
  /-- A string. One with half a surrogate pair has no text. -/
  | string (text? : Option Text)
  /-- An array. -/
  | array (items : List Json)
  /-- An object. The name of a member is a string too. -/
  | object (members : List (Option Text × Json))
deriving Repr, Inhabited

namespace Json

/-- A number without sign as a value. -/
def ofNat (n : Nat) : Json := .number (Text.ofNat n)

/-- A whole number as a value. -/
def ofInt (n : Int) : Json := .number (Text.ofInt n)

/-- A text as a value. -/
def ofText (text : Text) : Json := .string (some text)

/-- Named values as an object. -/
def ofFields (fields : List (Text × Json)) : Json :=
  .object (fields.map fun (name, value) => (some name, value))

/-- The text of a string. -/
def text? : Json → Option Text
  | .string text? => text?
  | _ => none

/-- The text of a string, and `null` for no text. -/
def optionalText? : Json → Option (Option Text)
  | .null => some none
  | .string (some text) => some (some text)
  | _ => none

/-- The texts of an array of strings. -/
def texts? : Json → Option (List Text)
  | .array items => items.mapM text?
  | _ => none

/-- The texts of an array of strings, and `null` for no array. -/
def optionalTexts? : Json → Option (Option (List Text))
  | .null => some none
  | value => value.texts?.map some

/-- The members of an object under the given names, in the order of the names, each there at most
once. An array stands for the same record with its items in that order; items may be left off at
its end. -/
def record? (names : List Text) : Json → Option (List (Option Json))
  | .object members =>
    if members.any (fun member => member.1.isNone) then none
    else names.mapM fun name =>
      match members.filter fun member => member.1 = some name with
      | [] => some none
      | [member] => some (some member.2)
      | _ => none
  | .array items =>
    if items.length ≤ names.length then
      some (items.map some ++ List.replicate (names.length - items.length) none)
    else none
  | _ => none

end Json

end EngineUpkeep
