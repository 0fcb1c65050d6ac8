import EngineUpkeep.Toml.Scalar
import EngineUpkeep.Toml.Tree

/-!
# Names and values of TOML

A name is bare or quoted, and dots join up to `depthLimit` names into a path. A value is a quoted
text, a scalar word, an array or an inline table. Arrays and inline tables may have comments, line
breaks and a comma at the end, and stand at most `depthLimit` deep in each other.
-/

namespace EngineUpkeep

namespace Toml

/-- A character of a bare name. -/
def isBare (c : Char) : Bool :=
  c.isAlphanum || c = '-' || c = '_'

/-- The text without the spaces and tabs in front. -/
def skipSpaces (text : Text) : Text :=
  text.dropWhile isSpace

/-- Takes one name. -/
def readName (text : Text) : Option (Text × Text) :=
  match text with
  | '"' :: _ => readShortQuoted text
  | '\'' :: _ => readShortQuoted text
  | _ =>
    if text.takeWhile isBare = [] then none
    else some (text.takeWhile isBare, text.dropWhile isBare)

/-- The most names that a path can have, and the most arrays and inline tables that can stand in
each other. -/
def depthLimit : Nat := 80

/-- Takes up to so many names with dots between them. -/
def readPathUpTo : Nat → Text → Option (List Text × Text)
  | 0, _ => none
  | fuel + 1, text => do
    let (name, rest) ← readName text
    match skipSpaces rest with
    | '.' :: next =>
      let (names, after) ← readPathUpTo fuel (skipSpaces next)
      some (name :: names, after)
    | after => some ([name], after)

/-- Takes names with dots between them, and the spaces after them. -/
def readPath (text : Text) : Option (List Text × Text) :=
  readPathUpTo depthLimit text

/-- Takes a comment, if there is one, up to the end of its line. -/
def skipComment : Text → Text
  | '#' :: rest => rest.dropWhile isPrintable
  | text => text

/-- The text without the spaces, line breaks and comments in front. -/
def skipFiller : Nat → Text → Text
  | 0, text => text
  | fuel + 1, text =>
    let rest := skipComment (skipSpaces text)
    match readBreak? rest with
    | some next => skipFiller fuel next
    | none => rest

/-- The text without all filler in front. -/
def skipAllFiller (text : Text) : Text :=
  skipFiller (text.length + 1) text

/-- A character that can stand in a scalar word, points and blanks apart. -/
def isWordChar (c : Char) : Bool :=
  !"=,[]{}.# \t\r\n".toList.contains c

/-- The text begins with a character that a part of a scalar word can begin with. -/
def beginsWord : Text → Bool
  | c :: _ => isWordChar c && c ≠ '"' && c ≠ '\''
  | [] => false

/-- Takes the parts of a scalar word: runs of word characters, points between them, and blanks that
another run follows. Each step takes a part. -/
def readParts : Nat → Text → Text × Text
  | 0, text => ([], text)
  | fuel + 1, text =>
    let run :=
      match text with
      | '.' :: _ => ['.']
      | _ => if beginsWord text then text.takeWhile isWordChar else []
    let blanks := if beginsWord (skipSpaces text) then text.takeWhile isSpace else []
    let part := if run = [] then blanks else run
    if part = [] then ([], text)
    else
      let (parts, after) := readParts fuel (text.drop part.length)
      (part ++ parts, after)

/-- Takes a scalar word. -/
def readWord (text : Text) : Option (Toml × Text) := do
  let (word, after) := readParts (text.length + 1) text
  let value ← scalar? word
  some (value, after)

/-- Takes the items of an array up to its closing bracket. Each step takes an item. -/
def readItems (readValue : Text → Option (Toml × Text)) :
    Nat → Text → Option (List Toml × Text)
  | 0, _ => none
  | fuel + 1, text =>
    match skipAllFiller text with
    | ']' :: after => some ([], after)
    | start => do
      let (item, rest) ← readValue start
      match skipAllFiller rest with
      | ']' :: after => some ([item], after)
      | ',' :: next =>
        let (items, after) ← readItems readValue fuel next
        some (item :: items, after)
      | _ => none

/-- Takes a path, an equality sign and a value. -/
def readAssignment (readValue : Text → Option (Toml × Text)) (text : Text) :
    Option ((List Text × Toml) × Text) := do
  let (path, rest) ← readPath text
  match rest with
  | '=' :: start =>
    let (value, after) ← readValue (skipSpaces start)
    some ((path, value), after)
  | _ => none

/-- Takes the entries of an inline table up to its closing brace. Each step takes an entry. -/
def readEntries (readValue : Text → Option (Toml × Text)) :
    Nat → Text → Option (List (List Text × Toml) × Text)
  | 0, _ => none
  | fuel + 1, text =>
    match skipAllFiller text with
    | '}' :: after => some ([], after)
    | start => do
      let (entry, rest) ← readAssignment readValue start
      match skipAllFiller rest with
      | '}' :: after => some ([entry], after)
      | ',' :: next =>
        let (entries, after) ← readEntries readValue fuel next
        some (entry :: entries, after)
      | _ => none

/-- The table that has the given values under their paths. -/
def inlineTable? (entries : List (List Text × Toml)) : Option Toml :=
  (entries.foldlM (fun (node : Node) (path, value) => node.insert path value) Node.root).map
    Node.toToml

/-- Takes a value in which arrays and inline tables stand at most `depth` deep. -/
def readValueWithin : Nat → Text → Option (Toml × Text)
  | 0, text =>
    match text with
    | '[' :: _ => none
    | '{' :: _ => none
    | '"' :: _ => (readQuoted text).map fun (quoted, after) => (.string quoted, after)
    | '\'' :: _ => (readQuoted text).map fun (quoted, after) => (.string quoted, after)
    | _ => readWord text
  | depth + 1, text =>
    match text with
    | '[' :: rest =>
      (readItems (readValueWithin depth) (rest.length + 1) rest).map fun (items, after) =>
        (.array items, after)
    | '{' :: rest => do
      let (entries, after) ← readEntries (readValueWithin depth) (rest.length + 1) rest
      let table ← inlineTable? entries
      some (table, after)
    | '"' :: _ => (readQuoted text).map fun (quoted, after) => (.string quoted, after)
    | '\'' :: _ => (readQuoted text).map fun (quoted, after) => (.string quoted, after)
    | _ => readWord text

/-- Takes a value. -/
def readValue (text : Text) : Option (Toml × Text) :=
  readValueWithin depthLimit text

end Toml

end EngineUpkeep
