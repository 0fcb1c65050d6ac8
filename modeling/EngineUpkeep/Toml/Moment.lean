import EngineUpkeep.Text.Basic

/-!
# Dates and times of TOML

A moment is a date, a time of day, or both with `T` or a space between them and perhaps an offset
from universal time. The day is one of the month's days, and a minute may have a leap second.
-/

namespace EngineUpkeep

namespace Toml

/-- The number that exactly `count` digits write. -/
def fixed? (count : Nat) (text : Text) : Option Nat :=
  if text.length = count && text.all Text.isAsciiDigit then some (Text.asciiValue text) else none

/-- The year has a 29 February. -/
def isLeap (year : Nat) : Bool :=
  (year % 4 = 0 && year % 100 ≠ 0) || year % 400 = 0

/-- The number of days of a month. -/
def daysOf (year month : Nat) : Nat :=
  if month = 2 then (if isLeap year then 29 else 28)
  else if month = 4 || month = 6 || month = 9 || month = 11 then 30
  else 31

/-- A text writes a date. -/
def isDate (text : Text) : Bool :=
  match (Text.pieces text '-') with
  | [year, month, day] =>
    match fixed? 4 year, fixed? 2 month, fixed? 2 day with
    | some year, some month, some day =>
      1 ≤ month && month ≤ 12 && 1 ≤ day && day ≤ daysOf year month
    | _, _, _ => false
  | _ => false

/-- A text of exactly two digits writes a number up to `most`. -/
def isPair (most : Nat) (text : Text) : Bool :=
  (fixed? 2 text).any (· ≤ most)

/-- A text writes seconds, perhaps with a fraction. -/
def isSeconds (text : Text) : Bool :=
  match Text.splitOnce text '.' with
  | none => isPair 60 text
  | some (whole, fraction) =>
    isPair 60 whole && fraction ≠ [] && fraction.all Text.isAsciiDigit

/-- A text writes a time of day. The seconds may be left out. -/
def isTime (text : Text) : Bool :=
  match Text.pieces text ':' with
  | [hour, minute] => isPair 23 hour && isPair 59 minute
  | [hour, minute, seconds] => isPair 23 hour && isPair 59 minute && isSeconds seconds
  | _ => false

/-- A text writes hours and minutes of an offset. -/
def isOffset (text : Text) : Bool :=
  match Text.pieces text ':' with
  | [hour, minute] => isPair 23 hour && isPair 59 minute
  | _ => false

/-- A text writes a time of day with an offset or without one. -/
def isTimeWithOffset (text : Text) : Bool :=
  match text.reverse with
  | 'Z' :: time => isTime time.reverse
  | 'z' :: time => isTime time.reverse
  | _ =>
    -- Either sign separates the offset.
    match Text.splitOnce (text.map fun c => if c = '-' then '+' else c) '+' with
    | none => isTime text
    | some (time, offset) => isTime time && isOffset offset

/-- The character between a date and a time. -/
def isDateEnd (c : Char) : Bool :=
  c = 'T' || c = 't' || c = ' '

/-- A text writes a moment. -/
def isMoment (text : Text) : Bool :=
  match text.drop 10 with
  | [] => isDate text || isTime text
  | mark :: time =>
    (isDateEnd mark && isDate (text.take 10) && isTimeWithOffset time) || isTime text

example : isMoment "1979-05-27T07:32:00.5-07:00".toList = true := by decide

example : isMoment "1979-13-01".toList = false := by decide

end Toml

end EngineUpkeep
