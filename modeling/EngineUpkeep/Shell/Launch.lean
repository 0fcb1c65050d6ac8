import EngineUpkeep.Shell.Switch

/-!
# How a shell is started

The words that a shell is started with turn its switches, say where its commands come from, and are
the arguments of the commands. Options stand in front (`Launch.ofWords`). A script is a file that a
shell is started with.
-/

namespace EngineUpkeep

namespace Shell

/-- Where the commands of a shell come from. -/
inductive CommandSource where
  /-- From the file at a path. -/
  | file (path : Text)
  /-- From a text that is one of the words. -/
  | text (commands : Text)
  /-- From the input. -/
  | input
deriving DecidableEq, Repr

/-- How a shell is started. -/
structure Launch where
  /-- The name that the commands know. -/
  name : Text
  /-- The arguments of the commands. -/
  words : List Text
  /-- Where the commands come from. -/
  source : CommandSource
  /-- The switches that are on. -/
  on : List Switch
deriving DecidableEq, Repr

/-- What options say when a shell is started. -/
structure StartOptions where
  /-- The switches that are on. -/
  on : List Switch := []
  /-- It has been said whether jobs are told apart. -/
  saysMonitor : Bool := false
  /-- The commands are one of the words. -/
  isGiven : Bool := false

namespace StartOptions

/-- The options after a switch has been turned. -/
def turn (options : StartOptions) (switch : Switch) (value : Bool) : StartOptions :=
  { options with
    on := Switch.turn options.on switch value
    saysMonitor := options.saysMonitor || switch = .monitor }

/-- Takes the letters of one word. After an `o` the name of a switch follows among the words. -/
def takeLetters (value : Bool) (options : StartOptions) :
    Text → List Text → Except Text (StartOptions × List Text)
  | [], words => .ok (options, words)
  | 'c' :: letters, words => takeLetters value { options with isGiven := true } letters words
  | 'l' :: letters, words => takeLetters value options letters words
  | 'o' :: letters, words =>
    match words with
    | [] => takeLetters value options letters []
    | name :: words =>
      match Switch.ofName? name with
      | some switch => takeLetters value (options.turn switch value) letters words
      | none => .error ("Illegal option -o ".toList ++ name)
  | letter :: letters, words =>
    match Switch.ofLetter? letter with
    | some switch =>
      let options := { options with on := Switch.withoutRival options.on switch value }
      takeLetters value (options.turn switch value) letters words
    | none => .error ("Illegal option -".toList ++ [letter])

/-- Takes the options at the front of some words, a word in each step. -/
def take (options : StartOptions) :
    Nat → List Text → Except Text (StartOptions × List Text)
  | 0, words => .ok (options, words)
  | _ + 1, [] => .ok (options, [])
  | fuel + 1, word :: words =>
    match word with
    | ['-'] => .ok (options, words)
    | ['-', '-'] => .ok (options, words)
    | sign :: letters =>
      if sign ≠ '-' && sign ≠ '+' then .ok (options, word :: words)
      else do
        let (options, words) ← options.takeLetters (sign = '-') letters words
        options.take fuel words
    | [] => .ok (options, word :: words)

end StartOptions

/-- How a shell with a name is started by some words, or what is wrong with them. A shell that a
person uses tells jobs apart, if nothing else is said. -/
def Launch.ofWords (shell : Text) (words : List Text) : Except Text Launch := do
  let (options, words) ← StartOptions.take {} (words.length + 1) words
  let on :=
    if options.on.contains .interactive && !options.saysMonitor then .monitor :: options.on
    else options.on
  match words with
  | [] =>
    if options.isGiven then .error "-c requires an argument".toList
    else .ok ⟨shell, [], .input, Switch.turn on .stdin true⟩
  | first :: rest =>
    if options.isGiven then .ok ⟨rest.headD shell, rest.drop 1, .text first, on⟩
    else if on.contains .stdin then .ok ⟨shell, words, .input, on⟩
    else .ok ⟨first, rest, .file first, on⟩

end Shell

end EngineUpkeep
