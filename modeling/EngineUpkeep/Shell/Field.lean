import EngineUpkeep.Shell.Pattern

/-!
# Fields

The pieces of expanded words make fields. A piece that is not quoted is split at separators
(`fieldsOf`). A separator that is a blank ends a field only once, however many there are, and none
in front of the first field; any other separator ends a field even if that is empty.

A line that is read is split in the same way, up to a number of fields of which the last one takes
the rest (`splitLine`).
-/

namespace EngineUpkeep

namespace Shell

/-- A piece of an expanded word. -/
inductive Piece where
  /-- Text that stays together, and whether it is quoted. -/
  | whole (text : Text) (quoted : Bool)
  /-- Text that is split at separators and, like at blanks, at NUL. -/
  | split (text : Text)
  /-- Quoted texts, with a border between each two of them. -/
  | separate (texts : List Text)
deriving Repr

/-- A blank can separate fields without ending an empty one. -/
def isBlank (c : Char) : Bool :=
  c = ' ' || c = '\t' || c = '\n' || c = '\x00'

/-- Fields that are being made. Each is a pattern, which may match paths. -/
structure Fields where
  /-- The finished fields, the last one first. -/
  finished : List (List PatternChar) := []
  /-- The field that is being made, its last character first. -/
  open? : Option (List PatternChar) := none
  /-- The last separator was a blank, so that one more belongs to it. -/
  afterBlank : Bool := false
  /-- Texts with borders stand in front, so that blanks are like other separators. -/
  afterBorders : Bool := false
  /-- How many further fields there may be. -/
  room? : Option Nat := none
  /-- The length of the last field without the separators that may have to be cut off. -/
  kept? : Option Nat := none

namespace Fields

/-- Ends the field that is being made. -/
def close (fields : Fields) : Fields :=
  { fields with
    finished := (fields.open?.getD []).reverse :: fields.finished, open? := none }

/-- Adds text to the field that is being made. -/
def extend (fields : Fields) (quoted : Bool) (text : Text) : Fields :=
  { fields with
    open? := some ((text.map fun c => (c, quoted)).reverse ++ fields.open?.getD []) }

/-- Adds a character of a text that is split, where the last field takes all. -/
def addLast (fields : Fields) (isSeparator : Bool) (c : Char) : Fields :=
  let length := (fields.open?.getD []).length
  let fields :=
    if isSeparator && isBlank c then { fields with kept? := fields.kept? <|> some length }
    -- One separator that follows blanks belongs to them.
    else
      { fields with
        kept? := if isSeparator && fields.afterBlank then fields.kept? else none
        afterBlank := false }
  fields.extend false [c]

/-- Adds a character of a text that is split. -/
def addChar (separators : Text) (fields : Fields) (c : Char) : Fields :=
  let isSeparator := c ∈ separators || c = '\x00'
  if fields.room? = some 0 then fields.addLast isSeparator c
  else if fields.afterBlank && isSeparator then
    { fields with afterBlank := isBlank c }
  else if !isSeparator then { fields.extend false [c] with afterBlank := false }
  else
    let isSoft := isBlank c && !fields.afterBorders
    match fields.open?, isSoft with
    | none, true => fields
    | _, _ =>
      let fields := { fields with afterBlank := isSoft }
      match fields.room? with
      | some (room + 1) =>
        if room = 0 then
          let length := (fields.open?.getD []).length
          { fields.extend false [c] with room? := some 0, kept? := some length }
        else { fields.close with room? := some room }
      | _ => fields.close

/-- Adds a text that is split. -/
def addSplit (separators : Text) (fields : Fields) (text : Text) : Fields :=
  text.foldl (addChar separators) { fields with afterBlank := false }

/-- Adds a piece. -/
def add (separators : Text) (fields : Fields) : Piece → Fields
  | .whole text quoted => fields.extend quoted text
  | .split text => { fields.addSplit separators text with afterBorders := false }
  | .separate [] => fields
  | .separate (first :: others) =>
    let last := others.foldl (fun fields text => fields.close.extend true text)
      (fields.extend true first)
    { last with afterBorders := true }

/-- The finished fields. -/
def toList (fields : Fields) : List (List PatternChar) :=
  match fields.open? with
  | none => fields.finished.reverse
  | some field =>
    let field := match fields.kept? with
      | some length => field.reverse.take length
      | none => field.reverse
    (field :: fields.finished).reverse

end Fields

/-- The fields that pieces make. -/
def fieldsOf (separators : Text) (pieces : List Piece) : List (List PatternChar) :=
  (pieces.foldl (Fields.add separators) {}).toList

/-- The first fields of a line, of which the last one takes the rest. Characters that are quoted are
no separators. -/
def splitLine (separators : Text) (count : Nat) (line : List PatternChar) : List Text :=
  let start : Fields := { room? := some count }
  let fields := line.foldl
    (fun fields (c, quoted) =>
      if quoted then { fields.extend true [c] with afterBlank := false }
      else fields.addChar separators c)
    start
  fields.toList.map fun field => field.map (·.1)

/-- The text that pieces make without being split. -/
def textOf (pieces : List Piece) : Text :=
  pieces.flatMap fun
    | .whole text _ => text
    | .split text => text
    | .separate texts => Text.join [' '] texts

/-- The pattern that pieces make without being split. -/
def patternOf (pieces : List Piece) : List PatternChar :=
  pieces.flatMap fun
    | .whole text quoted => text.map fun c => (c, quoted)
    | .split text => text.map fun c => (c, false)
    | .separate texts => (Text.join [' '] texts).map fun c => (c, true)

/-- A piece that is split at separators if it is not quoted. -/
def Piece.loosened : Piece → Piece
  | .whole text false => .split text
  | piece => piece

end Shell

end EngineUpkeep
