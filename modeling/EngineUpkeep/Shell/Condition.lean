import EngineUpkeep.Shell.Redirection

/-!
# Conditions of scripts

What `test` says about its words. A word is an operator or an operand by its place: `-n` with
nothing after it is an operand. Tests can be negated, put in parentheses, and joined with `-a` and
`-o`, of which `-a` binds closer.
-/

namespace EngineUpkeep

namespace Shell

/-- The operators in front of an operand. -/
def unaryTests : List Text :=
  ["-n", "-z", "-e", "-f", "-d", "-r", "-w", "-x", "-s", "-h", "-L", "-t", "-b", "-c", "-p", "-u",
    "-g", "-k", "-O", "-G", "-S"]

/-- The operators between two operands. -/
def binaryTests : List Text :=
  ["=", "!=", "<", ">", "-eq", "-ne", "-lt", "-le", "-gt", "-ge", "-nt", "-ot", "-ef"]

/-- The number that an operand writes. -/
def operandNumber (operand : Text) : Except Text Int :=
  match toDecimal? operand with
  | some number => .ok number
  | none => .error ("Illegal number: ".toList ++ operand)

/-- What a test with one operand says about a text or a file. -/
def testOne (state : State) (operator operand : Text) : Bool :=
  let path := pathNamed operand
  let file? := (state.world.tree.readFile state.current path).toOption
  let isDirectory := state.world.tree.isDirectory state.current path
  -- A stream that is open can be named like a file.
  let isDevice := devices.contains operand ||
    (namedStream? operand).any fun number => (state.streamOf? number).isSome
  let isThere := isDevice || state.world.tree.pathExists state.current path
  match String.ofList operator with
  | "-n" => operand ≠ []
  | "-z" => operand = []
  | "-f" => state.world.tree.isFile state.current path
  | "-d" => isDirectory
  | "-e" => isThere
  | "-r" => isThere
  | "-w" => isThere
  | "-O" => isThere
  | "-G" => isThere
  | "-s" => isDirectory || file?.any fun (content, _) => content.bytes ≠ []
  | "-c" => devices.contains operand
  | "-x" => isDirectory || file?.any fun (_, runnable) => runnable
  | "-h" => isLink path
  | "-L" => isLink path
  | _ => false
where
  /-- The path names a link. -/
  isLink (path : Path) : Bool :=
    match state.world.tree.slot state.current path with
    | .ok (directory, name) =>
      match state.world.tree.entryAt? (directory ++ [name]) with
      | some (.link _) => true
      | _ => false
    | .error _ => false

/-- What a test with two operands says. Files have no times here. -/
def testTwo (state : State) (operator a b : Text) : Except Text Bool :=
  match String.ofList operator with
  | "=" => .ok (a = b)
  | "!=" => .ok (a ≠ b)
  | "<" => .ok (a < b)
  | ">" => .ok (b < a)
  | "-eq" => compare fun a b => a = b
  | "-ne" => compare fun a b => a ≠ b
  | "-lt" => compare fun a b => a < b
  | "-le" => compare fun a b => a ≤ b
  | "-gt" => compare fun a b => b < a
  | "-ge" => compare fun a b => b ≤ a
  | "-ef" =>
    match state.world.tree.find state.current (pathNamed a),
      state.world.tree.find state.current (pathNamed b) with
    | .ok a, .ok b => .ok (a = b)
    | _, _ => .ok false
  | _ => .ok false
where
  /-- Compares numbers. -/
  compare (holds : Int → Int → Bool) : Except Text Bool := do
    let a ← operandNumber a
    let b ← operandNumber b
    .ok (holds a b)

/-- The first word is an operator in front of an operand. -/
def startsUnary (words : List Text) : Bool :=
  match words with
  | operator :: next :: rest =>
    unaryTests.contains operator && !(rest ≠ [] && binaryTests.contains next)
  | _ => false

/-- The complaint about an operator without operand. -/
def missingOperand (operator : Text) : Text :=
  operator ++ ": argument expected".toList

/-- Takes one test. -/
def takePlain (state : State) (words : List Text) :
    Except Text (Bool × List Text) :=
  match words with
  | [] => .ok (false, [])
  | first :: rest =>
    if startsUnary words then do
      let operand := rest.headD []
      -- No stream leads to a terminal.
      if first = ['-', 't'] then
        let _ ← operandNumber operand
      .ok (testOne state first operand, rest.drop 1)
    else match rest with
      | operator :: more =>
        if !binaryTests.contains operator then .ok (first ≠ [], rest)
        else match more with
          | second :: more => do .ok (← testTwo state operator first second, more)
          | [] => .error (missingOperand operator)
      | [] => .ok (first ≠ [], [])

mutual

/-- Takes tests with `-o` between them. -/
def takeEither (state : State) :
    Nat → List Text → Except Text (Bool × List Text)
  | 0, words => .ok (false, words)
  | fuel + 1, words => do
    let (first, rest) ← takeBoth state fuel words
    match rest with
    | ['-', 'o'] :: rest =>
      let (second, rest) ← takeEither state fuel rest
      .ok (first || second, rest)
    | _ => .ok (first, rest)

/-- Takes tests with `-a` between them. -/
def takeBoth (state : State) :
    Nat → List Text → Except Text (Bool × List Text)
  | 0, words => .ok (false, words)
  | fuel + 1, words => do
    let (first, rest) ← takeNegated state fuel words
    match rest with
    | ['-', 'a'] :: rest =>
      let (second, rest) ← takeBoth state fuel rest
      .ok (first && second, rest)
    | _ => .ok (first, rest)

/-- Takes a test that may be negated. -/
def takeNegated (state : State) :
    Nat → List Text → Except Text (Bool × List Text)
  | 0, words => .ok (false, words)
  | fuel + 1, words => do
    match words with
    | ['!'] :: rest =>
      let (answer, rest) ← takeNegated state fuel rest
      .ok (!answer, rest)
    | _ => takeTest state fuel words

/-- Takes one test, or tests in parentheses. -/
def takeTest (state : State) :
    Nat → List Text → Except Text (Bool × List Text)
  | 0, words => .ok (false, words)
  | fuel + 1, words => do
    match words with
    | [] => .ok (false, [])
    | ['('] :: [')'] :: rest => .ok (false, rest)
    | ['('] :: next :: rest =>
      let (answer, rest) ← takeEither state fuel (next :: rest)
      match rest with
      | [')'] :: rest => .ok (answer, rest)
      | _ => .error "closing paren expected".toList
    | _ => takePlain state words

end

/-- What a test says about words that all belong to it. With three words, an operator in the middle
is one whatever is around it. -/
def testWhole (state : State) (words : List Text) : Except Text Bool := do
  let (answer, rest) ←
    if words.length = 3 && binaryTests.contains (words[1]?.getD []) then takePlain state words
    else takeEither state (8 * words.length + 8) words
  match words[words.length - rest.length - 1]? with
  | some last =>
    let complaint := "unexpected operator".toList
    if rest = [] then .ok answer
    else .error (if last = [] then complaint else last ++ ": ".toList ++ complaint)
  | none => .ok answer

/-- What a test says about words whose marks of negation, as far as they are taken off, turn the
answer over. Marks and parentheses are taken off three or four words. -/
def testNegated (state : State) (isNegated : Bool) (words : List Text) : Except Text Bool := do
  let isComparison := words.length = 3 && binaryTests.contains (words[1]?.getD [])
  let isSmall := (words.length = 3 || words.length = 4) && !isComparison
  let whole (words : List Text) : Except Text Bool := do
    return (← testWhole state words) != isNegated
  match words with
  | first :: rest =>
    if isSmall && first = ['('] && rest.getLast? = some [')'] then whole rest.dropLast
    else if isSmall && first = ['!'] then testNegated state true rest
    else whole words
  | [] => whole words

/-- What a test says about words, or why it is not well formed. -/
def test (state : State) (words : List Text) : Except Text Bool :=
  testNegated state false words

end Shell

end EngineUpkeep
