import EngineUpkeep.Shell.Builtin.Arguments
import EngineUpkeep.Shell.Mask

/-!
# Commands about processes

Sending signals, saying what is done on them, and waiting for jobs. A job that can end has run to its
end before the script goes on, so that waiting only asks for its status.
-/

namespace EngineUpkeep

namespace Shell

/-- How `kill` is used. -/
def killUsage : Text :=
  "Usage: kill [-s sigspec | -signum | -sigspec] [pid | job]... or\nkill -l [exitstatus]"

namespace Act

/-- Sends a signal to a process, and says whether there is such a process. A job that does not end by
itself is ended by a signal. -/
def sendSignal (signal process : Nat) : Act Bool := do
  let state ← get
  if state.world.living.contains process then
    set { state with
      world := { state.world with signals := state.world.signals ++ [(process, signal)] } }
    return true
  else match state.jobs.ofProcess? process with
    | none => return false
    | some (number, job) =>
      if job.isNoticed then return false
      if !job.isOver && reactionTo signal = .dies then
        let ended := { job with ends? := some (List.replicate job.size (.killed signal)) }
        let endless := state.world.endless.erase process
        set { state with
          world := { state.world with endless }
          jobs := state.jobs.alter number fun _ => some ended }
      return true

/-- The job that a word names. -/
def jobOf (word : Text) : Act (Nat × Job) := do
  match (← get).jobs.find word with
  | .ok found => return found
  | .error fault => fail fault

/-- The process that an argument names. A group of processes, such as that of a job, has no number
of its own here. -/
def processOf? (text : Text) : Act (Option Nat) := do
  match text with
  | '%' :: _ =>
    let _ ← jobOf text
    return none
  | '-' :: digits =>
    let _ ← count digits
    return none
  | _ => return some (← count text)

/-- Sends a signal to each of some processes. -/
def sendSignals (signal : Nat) : List Text → Act Nat
  | [] => return 0
  | text :: others => do
    let isSent ← match ← processOf? text with
      | some process => sendSignal signal process
      | none => pure false
    if !isSent then warn 1 "No such process\n".toList
    let status ← sendSignals signal others
    return if isSent then status else 1

/-- Prints the name of the signal that a number or the status of a process means, or all names. -/
def listSignals (words : List Text) : Act Nat := do
  match words with
  | [] => say (['0', '\n'] ++ (List.range (signalLimit - 1)).flatMap fun number =>
      signalName (number + 1) ++ ['\n'])
  | text :: _ =>
    let number ← count text
    let signal := if 128 < number then number - 128 else number
    if signal = 0 || signalLimit ≤ signal then
      fail ("invalid signal number or exit status: ".toList ++ text)
    say (signalName signal ++ ['\n'])
  return 0

/-- Sends a signal to processes. -/
def kill (arguments : List Text) : Act Nat := do
  let named? := match arguments with
    | ('-' :: name) :: _ => signalNumber? 1 name
    | _ => none
  match named? with
  | some signal => send signal (arguments.drop 1)
  | none =>
    let (options, words) ← takeOptions ['l'] ['s'] arguments
    if options.any fun option => option.1 = 'l' then listSignals words
    else match options.getLast? with
      | none => send 15 words
      | some (_, name) =>
        match signalNumber? 1 name with
        | some signal => send signal words
        | none => fail ("invalid signal number or name: ".toList ++ name)
where
  /-- Sends a signal, if processes are given. -/
  send (signal : Nat) (words : List Text) : Act Nat :=
    if words = [] then fail killUsage else sendSignals signal words

/-- Says what is done on signals from now on. -/
def setTraps (action? : Option Text) : List Text → Act Nat
  | [] => return 0
  | name :: names => do
    match signalNumber? 0 name with
    | none =>
      modify fun state => state.tell ("trap: ".toList ++ name ++ ": bad trap\n".toList)
      return 1
    | some signal =>
      modify fun state =>
        let others := state.traps.filter fun trap => trap.1 ≠ signal
        { state with
          traps := match action? with
            | some action => (signal, action) :: others
            | none => others }
      setTraps action? names

/-- Says what is done on signals, or shows it. -/
def trap (arguments : List Text) : Act Nat := do
  match ← withoutOptions arguments with
  | [] =>
    let traps := (← get).traps
    for signal in List.range signalLimit do
      match traps.lookup signal with
      | some action =>
        say ("trap -- ".toList ++ quotedText action ++ ' ' :: signalName signal ++ ['\n'])
      | none => pure ()
    return 0
  | [name] => setTraps none [name]
  | first :: names =>
    if (signalNumber? 0 first).isSome then setTraps none (first :: names)
    else setTraps (if first = ['-'] then none else some first) names

/-- Waits for a job. It has to end, and what is said of its end is told if it is news. -/
def waitFor (number : Nat) (job : Job) : Act Nat := do
  match job.ends?, job.ending? with
  | some ends, some ending =>
    if !job.isNoticed then
      modify fun state => state.tell (ends.flatMap ProcessEnd.farewell)
    modify fun state =>
      let table := state.jobs.alter number fun job => some { job with isWaited := true }
      { state with jobs := table.noticed }
    return ending.status
  | _, _ => throw .stuck

/-- Waits for jobs. The status is that of the last one. -/
def wait (arguments : List Text) : Act Nat := do
  let words ← withoutOptions arguments
  if words = [] then
    if (← get).jobs.any fun slot => slot.any fun job => !job.isOver then throw .stuck
    modify fun state =>
      { state with
        jobs := state.jobs.noticed.map fun slot =>
          slot.map fun job => { job with isWaited := true } }
    return 0
  let mut status := 0
  for word in words do
    if word.head? = some '%' then
      let (number, job) ← jobOf word
      status ← waitFor number job
    else match (← get).jobs.ofProcess? (← count word) with
      | some (number, job) => status ← waitFor number job
      | none => status := 127
  return status

/-- Lists a job. One that has ended is gone then. -/
def listJob (letters : List Char) (number : Nat) (job : Job) : Act Unit := do
  if letters.contains 'p' then say (Text.ofNat job.process ++ ['\n'])
  else
    let table := (← get).jobs
    say (job.line number (table.mark number) (letters.contains 'l'))
    if job.isOver then
      modify fun state => { state with jobs := state.jobs.alter number fun _ => none }

/-- Lists all jobs, or some. -/
def listJobs (arguments : List Text) : Act Nat := do
  let (options, words) ← takeOptions ['l', 'p'] [] arguments
  let letters := options.map (·.1)
  modify fun state => { state with jobs := state.jobs.noticed }
  if words = [] then
    for (number, job) in (← get).jobs.newestFirst do
      listJob letters number job
  else
    for word in words do
      let (number, job) ← jobOf word
      listJob letters number job
  return 0

/-- Goes on with a job that was stopped. No job can be, since there is no terminal. -/
def continueJob (arguments : List Text) : Act Nat := do
  let words ← withoutOptions arguments
  let _ ← jobOf (words.headD ['%'])
  let name := words.headD "(null)".toList
  fail ("job ".toList ++ name ++ " not created under job control".toList)

/-- Changes or shows which rights new files do not get. -/
def changeMask (arguments : List Text) : Act Nat := do
  let (options, words) ← takeOptions ['S'] [] arguments
  let mask := (← get).mask
  match words with
  | [] =>
    say ((if options = [] then Mask.octalText mask else Mask.lettersText mask) ++ ['\n'])
    return 0
  | text :: _ =>
    let isNumber := text.head?.any Text.isAsciiDigit
    match if isNumber then Mask.ofDigits? text else Mask.changed? mask text with
    | some mask =>
      modify fun state => { state with mask }
      return 0
    | none => if isNumber then illegalNumber text else fail ("Illegal mode: ".toList ++ text)

/-- Prints the time that has been used. -/
def showTimes : Act Nat := do
  let line : Text := "0m0.000000s 0m0.000000s\n"
  say (line ++ line)
  return 0

/-- The limit of a resource. -/
def limitOf (state : State) (resource : Resource) : Limit :=
  (state.limits.lookup resource.letter).getD (.first resource)

/-- Shows or sets a limit. -/
def limit (arguments : List Text) : Act Nat := do
  let (options, words) ← takeOptions "HSatfdsmcnlpvwr".toList [] arguments
  let letters := options.map (·.1)
  let asks (letter : Char) : Bool := letters.contains letter
  -- The last letter that says which value is meant counts.
  let meant? := (letters.filter ['H', 'S'].contains).getLast?
  let isSoft := meant? ≠ some 'H'
  let isHard := meant? ≠ some 'S'
  let letter := ((letters.filter fun c => !(['H', 'S', 'a'].contains c)).getLast?).getD 'f'
  let state ← get
  let shown (resource : Resource) : Text :=
    let limit := limitOf state resource
    Limit.valueText resource (if isSoft then limit.soft else limit.hard) ++ ['\n']
  match words, resources.find? fun resource => resource.letter = letter with
  | [], some resource =>
    if asks 'a' then
      for resource in resources do
        let name := resource.name.toList
        say (name ++ List.replicate (20 - name.length) ' ' ++ ' ' :: shown resource)
    else say (shown resource)
    return 0
  | word :: others, some resource =>
    if asks 'a' || others ≠ [] then fail "too many arguments".toList
    match Limit.value? resource word with
    | none => fail "bad number".toList
    | some value =>
      match (limitOf state resource).changed isSoft isHard value with
      | .error fault => fail fault
      | .ok limit =>
        let others := state.limits.filter fun item => item.1 ≠ letter
        set { state with limits := (letter, limit) :: others }
        return 0
  | _, none => return 0

end Act

end Shell

end EngineUpkeep
