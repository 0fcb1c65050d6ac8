import EngineUpkeep.Text.Basic

/-!
# TOML values

Settings and plans use strings, integers, arrays and tables. Truth values, floats, dates and times
are only checked, so a value keeps them as they are written.

A number is worked out when something looks at it, so a document may hold numbers that are well
written and still have no value. Such a number spoils what looks at it: a reader that wants it, and
a record that passes over it under a name it does not know. The items behind the last name of a
record that is written as an array are not looked at.
-/

namespace EngineUpkeep

/-- A TOML value. -/
inductive Toml where
  /-- A string. -/
  | string (text : Text)
  /-- An integer. -/
  | integer (value : Int)
  /-- A truth value or a float, as it is written. -/
  | plain (written : Text)
  /-- A date, a time or both, as it is written. -/
  | moment (written : Text)
  /-- A number without a value, as it is written: it is too large, or it has no digits of its base,
  or other characters between them. -/
  | valueless (written : Text)
  /-- An array. -/
  | array (items : List Toml)
  /-- A table. Its names are distinct. -/
  | table (entries : List (Text × Toml))
deriving Repr, Inhabited

namespace Toml

/-- The text of a string. -/
def text? : Toml → Option Text
  | .string text => some text
  | _ => none

/-- The value of an integer that is a word: not negative and below `Text.wordLimit`. -/
def word? : Toml → Option Nat
  | .integer (.ofNat n) => if n < Text.wordLimit then some n else none
  | _ => none

/-- The texts of an array of strings. -/
def texts? : Toml → Option (List Text)
  | .array items => items.mapM text?
  | _ => none

mutual

/-- Every number in a value has a value itself. -/
def isSound : Toml → Bool
  | .valueless _ => false
  | .array items => areSound items
  | .table entries => entriesAreSound entries
  | _ => true

/-- Every number in the items of an array has a value. -/
def areSound : List Toml → Bool
  | [] => true
  | item :: items => isSound item && areSound items

/-- Every number in the entries of a table has a value. -/
def entriesAreSound : List (Text × Toml) → Bool
  | [] => true
  | entry :: entries => entryIsSound entry && entriesAreSound entries

/-- Every number in an entry of a table has a value. -/
def entryIsSound : Text × Toml → Bool
  | (_, value) => isSound value

end

/-- The entries of a table under the given names, in the order of the names. An entry under another
name only has to be sound. An array stands for the same record with its items in that order; items
may be left off at its end, and items after the last name are not looked at. A date or a time is a
record in which none of the names is given. -/
def record? (names : List Text) : Toml → Option (List (Option Toml))
  | .table entries =>
    if entriesAreSound (entries.filter fun entry => !names.contains entry.1) then
      some (names.map fun name => entries.lookup name)
    else none
  | .array items =>
    some ((items.take names.length).map some ++
      List.replicate (names.length - items.length) none)
  | .moment _ => some (names.map fun _ => none)
  | _ => none

/-- The value is an array or a table with nothing in it. -/
def isVoid : Toml → Bool
  | .array [] => true
  | .table [] => true
  | _ => false

/-- The name of a choice: a string, or a table whose only entry is void. -/
def choice? : Toml → Option Text
  | .string name => some name
  | .table [(name, value)] => if value.isVoid then some name else none
  | _ => none

end Toml

end EngineUpkeep
