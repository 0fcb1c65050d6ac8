import EngineUpkeep.Shell.Source

/-!
# Reading words

A word ends at a blank, a line feed or an operator, unless these are quoted. Where a part of it
stands, between quotes, braces, or in a sum, decides which characters are special there
(`Surroundings`). Commands inside a word are read by an action that is given, `nested`, which is
told whether a parenthesis has to close them.
-/

namespace EngineUpkeep

namespace Shell

/-- Where parts of a word stand. -/
inductive Surroundings where
  /-- In a word of a command. -/
  | bare
  /-- Between braces, after the mark of a parameter. -/
  | braces
  /-- Between quotation marks. -/
  | quotes
  /-- Between braces that stand between quotation marks, perhaps between further such marks. -/
  | quotedBraces (inQuotes : Bool)
  /-- In a here-document. -/
  | document
  /-- In a sum, with so many parentheses open. -/
  | sum (depth : Nat)
deriving DecidableEq, Repr

/-- A character that ends a word. -/
def endsWord (c : Char) : Bool :=
  [' ', '\t', '\n', ';', '&', '|', '(', ')', '<', '>'].contains c

namespace Surroundings

/-- What stands there is quoted. -/
def isQuoted : Surroundings → Bool
  | bare => false
  | braces => false
  | _ => true

/-- The character is special there. -/
def isMark (c : Char) (surroundings : Surroundings) : Bool :=
  ['\\', '$', '\x60'].contains c ||
    match surroundings with
    | bare => c = '\'' || c = '"' || endsWord c
    | braces => c = '\'' || c = '"' || c = '}'
    | quotes => c = '"'
    | quotedBraces _ => c = '"' || c = '}'
    | document => false
    | sum _ => c = '(' || c = ')'

/-- A backslash stays there in front of a character. -/
def keepsBackslash (c : Char) (surroundings : Surroundings) : Bool :=
  surroundings.isQuoted && !(['\\', '$', '\x60'].contains c) &&
    match surroundings with
    | document => true
    | quotedBraces _ => c ≠ '"' && c ≠ '}'
    | _ => c ≠ '"'

end Surroundings

/-- A parameter with a name of one character that is no letter. -/
def isSpecial (c : Char) : Bool :=
  Text.isAsciiDigit c || ['@', '*', '#', '?', '$', '!', '-'].contains c

/-- Takes text up to a back quote. A backslash in front of a special character makes it ordinary
and is left out. -/
def takeBackQuoted (quoted : Bool) : Text → Option (Text × Text)
  | [] => none
  | '\\' :: '\n' :: rest => takeBackQuoted quoted rest
  | '\\' :: c :: rest =>
    let isSpecial := ['\\', '$', '\x60'].contains c || (quoted && c = '"')
    (takeBackQuoted quoted rest).map fun (text, after) =>
      (if isSpecial then c :: text else '\\' :: c :: text, after)
  | c :: rest =>
    if c = '\x60' then some ([], rest)
    else (takeBackQuoted quoted rest).map fun (text, after) => (c :: text, after)

namespace Reading

/-- What happens at the end of the script. -/
def endIn (place : Surroundings) (word : Word) : Reading Word := do
  let inDocument := (← get).document?.isSome
  match place with
  | .bare => return word
  | .document => return word
  | .braces => fault .openBrace
  | .sum _ => fault .openSum
  -- In a here-document quotation marks only count between braces.
  | _ => fault (if inDocument then .openBrace else .openQuote)

/-- Takes text up to an apostrophe. -/
def takeApostrophes : Reading Text := do
  let text := (← get).rest.takeWhile (· ≠ '\'')
  skip text.length
  match ← nextRaw with
  | some _ => return text
  | none => fault .openQuote

/-- Carries out an action that reads commands inside a word. Here-documents outside have to wait, and
the line that ends one does not count inside. -/
def inside (read : Reading (List Command)) : Reading (List Command) := do
  let outer ← get
  set { outer with pending := [], document? := none, behind := [], inMark := false }
  let body ← read
  modify fun source =>
    { source with
      pending := outer.pending, document? := outer.document?, behind := outer.behind
      inMark := outer.inMark }
  return body

/-- Looks at the beginning of a line of a here-document. If this is the line that ends it, nothing
more can be read. -/
def checkEnd (document : Pending) : Reading Unit :=
  modify fun source =>
    let start :=
      if document.dropsTabs then source.rest.dropWhile (· = '\t') else source.rest
    let line := start.takeWhile (· ≠ '\n')
    if line = document.mark then
      { source with
        rest := [], behind := start.drop (line.length + 1), line := source.line + 1 }
    else { source with rest := start }

/-- Takes commands between back quotes. Their lines are counted anew. -/
def takeOldOutput (nested : Bool → Reading (List Command)) (quoted : Bool) :
    Reading (List Command) := do
  let outer ← get
  match takeBackQuoted quoted outer.rest with
  | none =>
    skip outer.rest.length
    fault .openBackQuote
  | some (text, after) =>
    skip (outer.rest.length - after.length)
    let behind ← get
    set { behind with rest := text, line := 1, replaced := [] }
    let body ← inside (nested false)
    modify fun source =>
      { behind with documents := source.documents, nextDocument := source.nextDocument }
    return body

/-- Takes the next character after joined lines. A line feed begins no new line here. -/
def nextInLine : Reading (Option Char) := do
  let c? ← next
  if c? = some '\n' then
    modify fun source => { source with line := source.line - 1 }
  return c?

/-- Takes the name of a parameter after an opening brace, and says whether its length is meant;
nothing if there is none. -/
def takeBracedName : Reading (Option Text × Bool) := do
  match ← peek with
  | some '#' =>
    skip 1
    match (← get).rest with
    | c :: d :: _ =>
      if isNameChar c then return (← takeName, true)
      -- Otherwise the sign is the parameter, unless one character more is all there is.
      else if c ≠ '}' && d = '}' then
        skip 1
        return (if isSpecial c then some [c] else none, true)
      else return (some ['#'], false)
    | _ => return (some ['#'], false)
  | some c =>
    if isNameChar c then return (← takeName, false)
    else if isSpecial c then
      skip 1
      return (some [c], false)
    else
      if c ≠ '}' then let _ ← nextInLine
      return (none, false)
  | none => return (none, false)
where
  /-- Takes a name or a number. -/
  takeName : Reading (Option Text) := do
    let isNumber := (← get).rest.head?.any Text.isAsciiDigit
    return some (← takeJoined (if isNumber then Text.isAsciiDigit else isNameChar))

/-- Takes the mark after the name of a parameter. An empty mark says that there is none, and nothing
that it is not known. -/
def takeMark : Reading (Option Text) := do
  match ← nextInLine with
  | some '}' => return some []
  | some ':' =>
    match ← nextInLine with
    | some c => return if "\x7d-+?=".toList.contains c then some [':', c] else none
    | none => return none
  | some c =>
    if "-+?=".toList.contains c then return some [c]
    else if c = '%' || c = '#' then return some (if ← takeIf c then [c, c] else [c])
    else return none
  | none => return none

/-- The parts of a word after a mark are read as if they were not quoted. -/
def trims (mark : Text) : Bool :=
  mark.head? = some '%' || mark.head? = some '#'

/-- The parts between quotation marks, which make a field even if they are empty. Only the arguments
alone make none if there are none. -/
def markQuoted : Word → Word
  | [.parameter ['@'] .value quoted] => [.parameter ['@'] .value quoted]
  | .chars text quoted :: parts => .chars text quoted :: parts
  | parts => .chars [] true :: parts

mutual

/-- Takes parts of a word after those that are given, up to the end of their surroundings. -/
def takeParts (nested : Bool → Reading (List Command)) :
    Nat → Surroundings → Word → Reading Word
  | 0, _, _ => fault .tooDeep
  | fuel + 1, place, before => do
    let source ← get
    let isBreak (c : Char) : Bool := c = '\n' && source.document?.isSome
    let run := source.rest.takeWhile fun c => !place.isMark c && !isBreak c
    if run ≠ [] then
      skip run.length
      takeParts nested fuel place (addChars before run place.isQuoted)
    else match source.rest with
      | [] => endIn place before
      | c :: _ =>
        let literally (place : Surroundings) : Reading Word := do
          skip 1
          takeParts nested fuel place (addChars before [c] place.isQuoted)
        if place = .bare && endsWord c then return before
        else if isBreak c then do
          skip 1
          source.document?.forM checkEnd
          takeParts nested fuel place (addChars before [c] place.isQuoted)
        else if c = '\\' then do
          skip 1
          match ← nextRaw with
          | none => takeParts nested fuel place (addChars before ['\\'] true)
          | some '\n' => takeParts nested fuel place before
          | some d =>
            let kept := if place.keepsBackslash d then ['\\', d] else [d]
            takeParts nested fuel place (addChars before kept true)
        else if c = '$' || c = '\x60' then
          if source.inMark then literally place
          else do
            skip 1
            let part ←
              if c = '$' then takeDollar nested fuel place.isQuoted
              else pure (Part.output (← takeOldOutput nested place.isQuoted) place.isQuoted)
            takeParts nested fuel place (before ++ [part])
        else match place, c with
          | .sum depth, '(' => literally (.sum (depth + 1))
          | .sum (depth + 1), ')' => literally (.sum depth)
          | .sum 0, _ => do
            skip 1
            if ← takeIf ')' then return before
            else takeParts nested fuel place (addChars before [')'] true)
          | .quotes, _ => do
            skip 1
            return before
          | .quotedBraces inQuotes, '"' => do
            skip 1
            takeParts nested fuel (.quotedBraces !inQuotes) before
          | .quotedBraces true, _ => literally place
          | _, '}' => do
            skip 1
            return before
          | _, '\'' => do
            skip 1
            let text ← takeApostrophes
            takeParts nested fuel place (addChars before text true)
          | _, _ => do
            skip 1
            let parts ← takeParts nested fuel .quotes []
            takeParts nested fuel place (before ++ markQuoted parts)

/-- Takes what begins with a dollar sign, after the sign. -/
def takeDollar (nested : Bool → Reading (List Command)) : Nat → Bool → Reading Part
  | 0, _ => fault .tooDeep
  | fuel + 1, quoted => do
    match ← peek with
    | some '(' =>
      skip 1
      if ← takeIf '(' then return .sum (← takeParts nested fuel (.sum 0) []) quoted
      else return .output (← inside (nested true)) quoted
    | some '{' =>
      skip 1
      let (name?, isLength) ← takeBracedName
      match name? with
      | none =>
        let _ ← takeParts nested fuel (if quoted then .quotedBraces false else .braces) []
        return .parameter [] .unknown quoted
      | some name =>
        let mark? ← takeMark
        if mark? = some [] then
          return .parameter name (if isLength then .length else .value) quoted
        else
          let mark := mark?.getD []
          let place := if quoted && !trims mark then .quotedBraces false else .braces
          let word ← takeParts nested fuel place []
          let isKnown := mark ≠ [] && mark ≠ [':', '}'] && !isLength
          return .parameter name (if isKnown then .marked mark word else .unknown) quoted
    | some c =>
      if startsName c then return .parameter (← takeJoined isNameChar) .value quoted
      else if isSpecial c then
        skip 1
        return .parameter [c] .value quoted
      else return .chars ['$'] quoted
    | none => return .chars ['$'] quoted

end

/-- The text of a here-document in which nothing is expanded, and what comes after its mark. Each step
takes a line. -/
def splitDocument (document : Pending) : Nat → Text → Text × Text
  | 0, text => ([], text)
  | fuel + 1, text =>
    let start := if document.dropsTabs then text.dropWhile (· = '\t') else text
    let length := (start.takeWhile (· ≠ '\n')).length
    let after := start.drop (length + 1)
    if start = [] || start.take length = document.mark then ([], after)
    else
      let (body, after) := splitDocument document fuel after
      (start.take (length + 1) ++ body, after)

/-- Takes the text of a here-document. -/
def takeDocument (nested : Bool → Reading (List Command)) (fuel : Nat) (document : Pending) :
    Reading Unit := do
  let outer ← get
  let word : Word ←
    if document.isLiteral then
      let (body, after) := splitDocument document (outer.rest.length + 1) outer.rest
      skip (outer.rest.length - after.length)
      pure [.chars body true]
    else
      set { outer with document? := some document, behind := [] }
      let _ ← peek
      checkEnd document
      let word ← takeParts nested fuel .document []
      modify fun source =>
        { source with
          rest := source.behind, behind := outer.behind, document? := outer.document? }
      pure word
  modify fun source => { source with documents := (document.number, word) :: source.documents }

/-- Takes the texts of all here-documents whose commands have been read. -/
def takeDocuments (nested : Bool → Reading (List Command)) (fuel : Nat) : Reading Unit := do
  let pending := (← get).pending
  modify fun source => { source with pending := [] }
  pending.forM (takeDocument nested fuel)

end Reading

end Shell

end EngineUpkeep
