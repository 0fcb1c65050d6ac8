import EngineUpkeep.Shell.Builtin.Arguments
import EngineUpkeep.Text.Ordered

/-!
# Commands about variables

Commands that set, mark and show variables, switches and arguments. A variable can be marked as
exported, so that commands which are started get it, or as fixed, so that it cannot be changed.
-/

namespace EngineUpkeep

namespace Shell

/-- The name and the value of a word such as `name=value`. -/
def splitAssignment (word : Text) : Text × Option Text :=
  match Text.splitOnce word '=' with
  | some (name, value) => (name, some value)
  | none => (word, none)

/-- The fields of a line that is read, and the number of its characters, line feed included. A
backslash keeps the next character, unless the line is read raw. -/
def takeReadLine (isRaw : Bool) : Text → List PatternChar × Nat × Bool
  | [] => ([], 0, false)
  | '\n' :: _ => ([], 1, true)
  | '\x00' :: rest =>
    let (line, count, isEnded) := takeReadLine isRaw rest
    (line, count + 1, isEnded)
  | '\\' :: c :: rest =>
    if isRaw then
      let (line, count, isEnded) := takeReadLine isRaw (c :: rest)
      (('\\', false) :: line, count + 1, isEnded)
    else
      let (line, count, isEnded) := takeReadLine isRaw rest
      (if c = '\n' then line else (c, true) :: line, count + 2, isEnded)
  | c :: rest =>
    let (line, count, isEnded) := takeReadLine isRaw rest
    (if c = '\\' && !isRaw then line else (c, false) :: line, count + 1, isEnded)

/-- What the letters of options say of one of them: it is not known, or it has a value or none. -/
def optionKind? (c : Char) : Text → Option Bool
  | [] => none
  | letter :: ':' :: rest => if letter = c then some true else optionKind? c rest
  | letter :: rest => if letter = c then some false else optionKind? c rest

namespace Act

/-- A variable is marked, and perhaps gets a value. -/
def mark (isMarked : State → Text → Bool → State) (word : Text) : Act Unit := do
  let (name, value?) := splitAssignment word
  checkName name
  match value? with
  | some value => assign name value
  | none => pure ()
  modify fun state => isMarked state name true

/-- Prints all variables with some names, each after a command. -/
def showVariables (command : Text) (names : List Text) : Act Unit := do
  let state ← get
  for name in Text.sortDistinct names do
    let value := match state.valueOf? name with
      | some value => '=' :: quotedText value
      | none => []
    say (command ++ name ++ value ++ ['\n'])

/-- Marks variables as exported, or shows those that are. -/
def markExported (arguments : List Text) : Act Nat := do
  let (options, words) ← takeOptions ['p'] [] arguments
  if options ≠ [] || words = [] then
    showVariables "export ".toList (← get).exported
  else words.forM (mark State.withExported)
  return 0

/-- Marks variables as fixed, or shows those that are. -/
def markFixed (arguments : List Text) : Act Nat := do
  let (options, words) ← takeOptions ['p'] [] arguments
  if options ≠ [] || words = [] then
    showVariables "readonly ".toList (← get).fixed
  else words.forM (mark State.withFixed)
  return 0

/-- Makes variables local to the function that runs. They keep their values. -/
def makeLocal (arguments : List Text) : Act Nat := do
  if (← get).saved?.isNone then fail "not in a function".toList
  for word in arguments do
    let (name, value?) := splitAssignment word
    let remember (saved : Saved) : Act Unit :=
      modify fun state => { state with saved? := state.saved?.map (saved :: ·) }
    if word = ['-'] then remember (.switches (← get).on)
    else
      checkName name
      remember ((← get).save name)
      match value? with
      | some value => assign name value
      | none => pure ()
  return 0

/-- Takes the values of variables away, or functions. -/
def unsetAll (arguments : List Text) : Act Nat := do
  let (options, words) ← takeOptions ['v', 'f'] [] arguments
  if (options.getLast?.map (·.1)) = some 'f' then
    modify fun state =>
      { state with functions := state.functions.filter fun item => item.1 ∉ words }
  else words.forM unset
  return 0

/-- Gives other arguments. -/
def setArguments (words : List Text) : Act Unit :=
  modify fun state => { state with parameters := ⟨words, 1, none⟩ }

/-- Turns a switch, if it is there. -/
def turn (switch? : Option Switch) (written : Text) (value : Bool) : Act Unit := do
  match switch? with
  | some switch => modify fun state => { state with on := Switch.turn state.on switch value }
  | none => fail ("Illegal option -".toList ++ written)

/-- Turns the switches that letters name. After an `o` the name of one more switch follows among the
words. -/
def turnLetters (value : Bool) : Text → List Text → Act (List Text)
  | [], words => return words
  | 'o' :: letters, words => do
    match words with
    | [] =>
      let on := (← get).on
      say (if value then Switch.table on else Switch.commands on)
      turnLetters value letters []
    | name :: rest =>
      turn (Switch.ofName? name) ("o ".toList ++ name) value
      turnLetters value letters rest
  | letter :: letters, words => do
    let switch? := Switch.ofLetter? letter
    modify fun state =>
      { state with
        on := (switch?.map fun switch => Switch.withoutRival state.on switch value).getD state.on }
    turn switch? [letter] value
    turnLetters value letters words

/-- Turns switches at the front of some words, each step a word, and gives the words that are left,
if they are new arguments. -/
def turnSwitches : Nat → List Text → Act (Option (List Text))
  | 0, _ => return none
  | _ + 1, [] => return none
  | fuel + 1, word :: rest => do
    match word with
    | ['-'] =>
      turn (some .xtrace) [] false
      turn (some .verbose) [] false
      return if rest = [] then none else some rest
    | ['-', '-'] => return some rest
    | '-' :: letters => turnSwitches fuel (← turnLetters true letters rest)
    | '+' :: letters => turnSwitches fuel (← turnLetters false letters rest)
    | _ => return some (word :: rest)

/-- Turns switches and gives other arguments, or shows all variables. -/
def setOrShow (arguments : List Text) : Act Nat := do
  if arguments = [] then showVariables [] ((← get).values.map (·.1))
  else match ← turnSwitches (arguments.length + 1) arguments with
    | some words => setArguments words
    | none => pure ()
    checkMonitor
  return 0

/-- Takes some arguments off the front. -/
def shift (arguments : List Text) : Act Nat := do
  let count ← countOr 1 arguments
  let words := (← get).parameters.words
  if words.length < count then fail "can't shift that many".toList
  setArguments (words.drop count)
  return 0

/-- Reads a line and gives its fields to variables. -/
def read (arguments : List Text) : Act Nat := do
  let (options, names) ← takeOptions ['r'] ['p'] arguments
  if names = [] then fail "arg count".toList
  let state ← get
  let rest? := state.streamOf? 0 >>= state.world.rest?
  let isRaw := options.any fun option => option.1 = 'r'
  let (line, count, isEnded) := takeReadLine isRaw (rest?.getD [])
  match state.streamOf? 0 with
  | some stream => modify fun state => { state with world := state.world.advance stream count }
  | none => pure ()
  let fields := splitLine state.separators names.length line
  for (name, index) in names.zipIdx do
    checkName name
    assign name ((fields[index]?).getD [])
  return if isEnded then 0 else 1

/-- What is found of the next option: its letter, its value, what is told, and how far the words have
been taken. -/
structure FoundOption where
  /-- The letter, or a sign that something is wrong. -/
  letter : Char
  /-- The value. -/
  value? : Option Text
  /-- What is told about what is wrong. -/
  told : Text := []
  /-- The number of the next word. -/
  next : Nat
  /-- The next letter of the word before. -/
  nextLetter? : Option Nat := none
  /-- There is no further option. -/
  isEnd : Bool := false

/-- Finds the next option among some words, as far as they have been taken. -/
def findOption (letters : Text) (words : List Text) (next : Nat) (nextLetter? : Option Nat) :
    FoundOption :=
  let isQuiet := letters.head? = some ':'
  let inWord (c : Char) (more : Text) (offset next : Nat) : FoundOption :=
    let further? := if more = [] then none else some (offset + 1)
    match optionKind? c letters with
    | none =>
      { letter := '?', value? := if isQuiet then some [c] else none, next
        nextLetter? := further?
        told := if isQuiet then [] else "Illegal option -".toList ++ [c, '\n'] }
    | some false => { letter := c, value? := some [], next, nextLetter? := further? }
    | some true =>
      if more ≠ [] then { letter := c, value? := some more, next }
      else match words[next - 1]? with
        | some value => { letter := c, value? := some value, next := next + 1 }
        | none =>
          { letter := if isQuiet then ':' else '?'
            value? := if isQuiet then some [c] else none, next
            told := if isQuiet then [] else "No arg for -".toList ++ c :: " option\n".toList }
  let current := if next ≤ 1 then [] else (words[next - 2]?).getD []
  let left := match nextLetter? with
    | some offset => current.drop offset
    | none => []
  match left, nextLetter? with
  | c :: more, some offset => inWord c more offset next
  | _, _ =>
    match words[next - 1]? with
    | some ['-', '-'] => { letter := '?', value? := none, next := next + 1, isEnd := true }
    | some ('-' :: c :: more) => inWord c more 1 (next + 1)
    | _ => { letter := '?', value? := none, next, isEnd := true }

/-- Takes the next option from the arguments, or from words that are given. -/
def getOption (arguments : List Text) : Act Nat := do
  match arguments with
  | letters :: name :: given =>
    let state ← get
    let words := if given = [] then state.parameters.words else given
    let isPast := words.length + 1 < state.parameters.nextOption
    let next := if isPast then 1 else state.parameters.nextOption
    let found := findOption letters words next
      (if isPast then none else state.parameters.nextLetter?)
    modify fun state => state.tell found.told
    if !found.isEnd then
      match found.value? with
      | some value => assign "OPTARG".toList value
      | none => unset "OPTARG".toList
    assign "OPTIND".toList (Text.ofNat found.next)
    checkName name
    assign name [found.letter]
    modify fun state =>
      { state with
        parameters := { state.parameters with
          nextOption := found.next, nextLetter? := found.nextLetter? } }
    return if found.isEnd then 1 else 0
  | _ => fail "Usage: getopts optstring var [arg...]".toList

/-- Makes words stand for other texts, or shows for what they stand. -/
def setAliases (arguments : List Text) : Act Nat := do
  let print (name text : Text) : Act Unit := say (name ++ '=' :: quotedText text ++ ['\n'])
  let mut status := 0
  if arguments = [] then
    for (name, text) in listed aliasRows (·.1) (← get).aliases do
      print name text
  for word in arguments do
    match word with
    | [] => pure ()
    | first :: rest =>
      match Text.splitOnce rest '=' with
      | some (others, text) =>
        let name := first :: others
        modify fun state => { state with aliases := withItem name text state.aliases }
      | none =>
        match (← get).aliases.lookup word with
        | some text => print word text
        | none =>
          modify fun state => state.tell ("alias: ".toList ++ word ++ " not found\n".toList)
          status := 1
  return status

/-- Makes words stand for other texts no more. -/
def unalias (arguments : List Text) : Act Nat := do
  let (options, words) ← takeOptions ['a'] [] arguments
  let mut status := 0
  if options ≠ [] then modify fun state => { state with aliases := [] }
  else
    for word in words do
      if ((← get).aliases.lookup word).isNone then
        modify fun state => state.tell ("unalias: ".toList ++ word ++ " not found\n".toList)
        status := 1
      modify fun state =>
        { state with aliases := state.aliases.filter fun item => item.1 ≠ word }
  return status

end Act

end Shell

end EngineUpkeep
