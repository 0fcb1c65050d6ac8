import EngineUpkeep.Shell.Field
import EngineUpkeep.Shell.Job
import EngineUpkeep.Shell.Limit
import EngineUpkeep.Shell.Listing
import EngineUpkeep.Shell.Stream
import EngineUpkeep.Shell.Sum
import EngineUpkeep.Shell.Switch

/-!
# The state of a shell

What a running script can see and change. A shell has parameters, functions and switches of its own,
and numbers for the streams that it uses; the streams themselves belong to the world, which it
shares with others.

What a script does is an action (`Act`). An action may be left early by a jump, which says where the
script goes on. What a command prints is kept until the command ends, and what it complains about is
not, so that complaints come first.
-/

namespace EngineUpkeep

namespace Shell

/-- Where a script goes on in place of the next command. -/
inductive Jump where
  /-- Nowhere: it ends. -/
  | leave
  /-- Nowhere, unless the command that failed can only fail itself. -/
  | failed
  /-- Nowhere: a signal of the system ends it. -/
  | killed (signal : Nat)
  /-- Nowhere: it is given no more time. -/
  | stuck
  /-- After the function, or the file that is read. Its status may be given. -/
  | leaveFunction (isGiven : Bool)
  /-- After the loop, and after some loops around it. -/
  | leaveLoop (levels : Nat)
  /-- In the next round of the loop, or of a loop that is some levels around it. -/
  | nextRound (levels : Nat)
deriving DecidableEq, Repr

/-- The arguments of a script or a function, and how far options have been taken from them. -/
structure Parameters where
  /-- The arguments. -/
  words : List Text
  /-- The number of the next argument that may be an option. -/
  nextOption : Nat := 1
  /-- The next letter of the argument before, if it has several options. -/
  nextLetter? : Option Nat := none

/-- Where a program was found. -/
structure Place where
  /-- The path. -/
  path : Text
  /-- The directory has been changed since. -/
  isStale : Bool := false

/-- Something that a function changes only while it runs. -/
inductive Saved where
  /-- A variable. -/
  | variable (name : Text) (value? : Option Text) (isExported isFixed : Bool)
  /-- The switches. -/
  | switches (on : List Switch)

/-- What is remembered is a variable with a name. -/
def Saved.isOf (name : Text) : Saved → Bool
  | .variable other _ _ _ => other = name
  | .switches _ => false

/-- The state of a shell. -/
structure State where
  /-- The name of the script. -/
  name : Text
  /-- What the shell shares with others. -/
  world : World
  /-- The values of variables. -/
  values : Variables
  /-- The variables that commands which are started get as well. -/
  exported : List Text := []
  /-- The variables that cannot be changed. -/
  fixed : List Text := []
  /-- The bodies of functions. -/
  functions : List (Text × Command) := []
  /-- The words that stand for other texts. -/
  aliases : List (Text × Text) := []
  /-- Where programs were found, by their names. -/
  located : List (Text × Place) := []
  /-- The arguments. -/
  parameters : Parameters
  /-- The local variables of the function that runs, the last one first, and what they hide. -/
  saved? : Option (List Saved) := none
  /-- The switches that are on. -/
  on : List Switch := []
  /-- What is done on signals. -/
  traps : List (Nat × Text) := []
  /-- The signals that were not heeded when the process started, and never are. -/
  deaf : List Nat := []
  /-- The streams by their numbers. -/
  descriptors : List (Nat × Nat)
  /-- The current directory. -/
  current : Location
  /-- The path that the current directory was reached by. -/
  directory : Text
  /-- The bits that new files do not get. -/
  mask : Nat := 0o022
  /-- The limits of resources that have been set, by their letters. -/
  limits : List (Char × Limit) := []
  /-- The number of the process in which the script started. -/
  process : Nat
  /-- The number of the process that started it. -/
  parent : Nat
  /-- The shell is a copy, in a process of its own. -/
  isCopy : Bool := false
  /-- What was started without waiting for it. -/
  jobs : JobTable := []
  /-- The last process that was started. -/
  lastJob? : Option Nat := none
  /-- The status of the last command. -/
  status : Nat := 0
  /-- The status of the commands whose output was taken last. -/
  outputStatus : Nat := 0
  /-- The status that the script had when a signal came, while what is done on it runs. -/
  kept? : Option Nat := none
  /-- The line of the last command. -/
  line : Nat := 1
  /-- The line up to which the script has been read. -/
  sourceLine : Nat := 1
  /-- The texts of here-documents, by their numbers. -/
  documents : List (Nat × Word) := []
  /-- The number of the next here-document. -/
  nextDocument : Nat := 0
  /-- The command that is part of the shell and runs. -/
  speaker? : Option Text := none
  /-- How many loops are around the command in its function. -/
  loops : Nat := 0
  /-- How many functions are around the command. -/
  depth : Nat := 0
  /-- What has been printed but not written yet, the last piece first. -/
  unwritten : List Text := []

/-- An action of a shell, which may be left early. -/
abbrev Act := ExceptT Jump (StateM State)

namespace State

/-- The value of a variable; nothing if it is not set. -/
def valueOf? (state : State) (name : Text) : Option Text :=
  state.values.lookup name

/-- The state after a variable has been changed. With another search path the shell has to find
programs anew. -/
def afterChange (state : State) (name : Text) : State :=
  if name = "PATH".toList then { state with located := [] } else state

/-- A variable gets a value, whether it can be changed or not. -/
def put (state : State) (name value : Text) : State :=
  { state.afterChange name with
    values := state.values.set name value
    exported :=
      if state.on.contains .allexport && !state.exported.contains name then name :: state.exported
      else state.exported }

/-- Commands that are started get the variable, or do not. -/
def withExported (state : State) (name : Text) (isExported : Bool) : State :=
  let others := state.exported.filter (· ≠ name)
  { state with exported := if isExported then name :: others else others }

/-- The variable cannot be changed, or can. -/
def withFixed (state : State) (name : Text) (isFixed : Bool) : State :=
  let others := state.fixed.filter (· ≠ name)
  { state with fixed := if isFixed then name :: others else others }

/-- What has to be remembered of a variable. -/
def save (state : State) (name : Text) : Saved :=
  .variable name (state.valueOf? name) (state.exported.contains name) (state.fixed.contains name)

/-- Something is again as it was. -/
def restore (state : State) : Saved → State
  | .switches on => { state with on }
  | .variable name value? isExported isFixed =>
    let values := state.values.filter fun item => item.1 ≠ name
    let values := match value? with
      | some value => (name, value) :: values
      | none => values
    let state := { state.afterChange name with values }
    (state.withExported name isExported).withFixed name isFixed

/-- A switch is on. -/
def isOn (state : State) (switch : Switch) : Bool :=
  state.on.contains switch

/-- The characters that separate fields. -/
def separators (state : State) : Text :=
  (state.valueOf? "IFS".toList).getD [' ', '\t', '\n']

/-- The stream with a number. -/
def streamOf? (state : State) (number : Nat) : Option Nat :=
  state.descriptors.lookup number

/-- A number leads to a stream, or to none. -/
def setStream (state : State) (number : Nat) (stream? : Option Nat) : State :=
  let others := state.descriptors.filter fun item => item.1 ≠ number
  { state with
    descriptors := match stream? with
      | some stream => (number, stream) :: others
      | none => others }

/-- Writes to a stream, if that can be written. -/
def write? (state : State) (number : Nat) (text : Text) : Option State :=
  match state.streamOf? number with
  | none => none
  | some stream => (state.world.write? stream text).map fun world => { state with world }

/-- The beginning of a complaint. -/
def complaintStart (state : State) : Text :=
  state.name ++ ": ".toList ++ Text.ofNat state.line ++ ": ".toList ++
    match state.speaker? with
    | some speaker => speaker ++ ": ".toList
    | none => []

/-- Tells something on the stream for errors. -/
def tell (state : State) (text : Text) : State :=
  (state.write? 2 text).getD state

/-- Complains. -/
def complain (state : State) (text : Text) : State :=
  state.tell (state.complaintStart ++ text ++ ['\n'])

/-- The status of a truth value. -/
def withTruth (state : State) (value : Bool) : State :=
  { state with status := if value then 0 else 1 }

/-- A copy of the shell. What the shell does on signals is not for the copy, but signals that it does
not heed are not heeded by the copy either. -/
def copied (state : State) : State :=
  { state with
    isCopy := true, jobs := [], traps := state.traps.filter fun trap => trap.2 = [] }

/-- The signals that are not heeded by what the shell starts. -/
def unheeded (state : State) : List Nat :=
  state.deaf ++ (state.traps.filter fun trap => trap.2 = []).map (·.1)

/-- The shell has been told to do something on a signal. -/
def hasAction (state : State) : Bool :=
  state.traps.any fun trap => trap.2 ≠ []

end State

namespace Act

/-- Complains and has the command fail. -/
def fail {α : Type} (text : Text) : Act α := do
  modify fun state => { state.complain text with status := 2 }
  throw .failed

/-- Complains with a status and goes on. -/
def warn (status : Nat) (text : Text) : Act Unit :=
  modify fun state => { state.complain text with status }

/-- Prints. -/
def say (text : Text) : Act Unit :=
  modify fun state => { state with unwritten := text :: state.unwritten }

/-- Jobs can only be told apart at a terminal, of which there is none. A copy of a shell does not look
for it. -/
def checkMonitor : Act Unit := do
  let state ← get
  if state.isOn .monitor && !state.isCopy then
    let on := Switch.turn state.on .monitor false
    set { state.complain "can't access tty; job control turned off".toList with on }

/-- Sets the status. -/
def finish (status : Nat) : Act Unit :=
  modify fun state => { state with status }

/-- Writes what has been printed, and says whether that can be written. -/
def flush : Act Bool := do
  let state ← get
  if state.unwritten.isEmpty then return true
  else
    let text := state.unwritten.reverse.flatten
    let state := { state with unwritten := [] }
    if text.isEmpty then
      set state
      return true
    else match state.write? 1 text with
      | some written =>
        set written
        return true
      | none =>
        set state
        return false

/-- A variable gets a value. -/
def assign (name value : Text) : Act Unit := do
  let state ← get
  if state.fixed.contains name then fail (name ++ ": is read only".toList)
  else set (state.put name value)
  -- A new number of the next option makes its letters be taken anew.
  if name = "OPTIND".toList then
    match toDecimal? value with
    | some number =>
      modify fun state =>
        { state with
          parameters := { state.parameters with
            nextOption := max 1 number.toNat, nextLetter? := none } }
    | none => fail ("Illegal number: ".toList ++ value)

/-- Checks that a text is the name of a variable. -/
def checkName (name : Text) : Act Unit := do
  if !isName name then fail (name ++ ": bad variable name".toList)

/-- A variable has no value any more. -/
def unset (name : Text) : Act Unit := do
  checkName name
  let state ← get
  if state.fixed.contains name then fail (name ++ ": is read only".toList)
  else
    let values := state.values.filter fun item => item.1 ≠ name
    set ({ state.afterChange name with values }.withExported name false)

end Act

/-- The value of a parameter; nothing if it is not set. The arguments together have separators
between them. -/
def parameter? (state : State) (name : Text) : Option Text :=
  match name with
  | ['@'] => some (Text.join (state.separators.take 1) state.parameters.words)
  | ['*'] => some (Text.join (state.separators.take 1) state.parameters.words)
  | ['#'] => some (Text.ofNat state.parameters.words.length)
  | ['?'] => some (Text.ofNat state.status)
  | ['$'] => some (Text.ofNat state.process)
  | ['!'] => state.lastJob?.map Text.ofNat
  | ['-'] => some (Switch.lettersOf state.on)
  | c :: _ =>
    if Text.isAsciiDigit c then
      if Text.asciiValue name = 0 then some state.name
      else state.parameters.words[Text.asciiValue name - 1]?
    else state.valueOf? name
  | [] => none

/-- The text as a word of a script that stands for itself. Apostrophes stand between quotation marks,
and all else, even nothing in front of them, between apostrophes. -/
def quotedText (text : Text) : Text :=
  let (done, run) := text.foldl
    (fun (done, run) c =>
      if (c = '\'') = (run.head? = some '\'') then (done, c :: run)
      else (done ++ quote run, [c]))
    ((([] : Text), ([] : Text)))
  done ++ quote run
where
  /-- A run of apostrophes, or of other characters, between quotes. It is given in reverse. -/
  quote (run : Text) : Text :=
    if run.head? = some '\'' then '"' :: run ++ ['"'] else '\'' :: run.reverse ++ ['\'']

end Shell

end EngineUpkeep
