import EngineUpkeep.Shell.Builtin.Directory
import EngineUpkeep.Shell.Builtin.Process
import EngineUpkeep.Shell.Builtin.Variables
import EngineUpkeep.Shell.Condition
import EngineUpkeep.Shell.Printing
import EngineUpkeep.Shell.Program
import EngineUpkeep.Shell.Source

/-!
# Commands that are part of the shell

Each such command is an action on its arguments that gives a status. Those that run further
commands, such as `eval`, are not here. The special ones end the script when they fail, while the
others only have a status that says so.
-/

namespace EngineUpkeep

namespace Shell

/-- The names of the commands that are part of the shell and not special. -/
def plainNames : List Text :=
  ["[", "alias", "bg", "cd", "chdir", "command", "echo", "false", "fg", "getopts", "hash", "jobs",
    "kill", "printf", "pwd", "read", "test", "true", "type", "ulimit", "umask", "unalias", "wait"]

/-- The name is that of a command which is part of the shell. -/
def isBuiltin (name : Text) : Bool :=
  specialNames.contains name || plainNames.contains name

/-- The commands whose arguments can be assignments, which are not split. -/
def assigningNames : List Text :=
  ["alias", "export", "local", "readonly"]

namespace Act

/-- Tells what a command is, in a sentence or briefly. Programs may be meant to be those of the system
alone. -/
def describe (isBrief isStandard : Bool) (name : Text) : Act Nat := do
  let state ← get
  let tell (brief sentence : Text) : Act Nat := do
    say ((if isBrief then brief else name ++ sentence) ++ ['\n'])
    return 0
  let alias? := state.aliases.lookup name
  if keywords.contains name then tell name " is a shell keyword".toList
  else if alias?.isSome then
    let text := alias?.getD []
    tell ("alias ".toList ++ name ++ '=' :: quotedText text) (" is an alias for ".toList ++ text)
  else if (state.functions.lookup name).isSome then tell name " is a shell function".toList
  else if specialNames.contains name then tell name " is a special shell builtin".toList
  else if plainNames.contains name then tell name " is a shell builtin".toList
  else match if isStandard then none else state.located.lookup name with
    | some place => tell place.path (" is a tracked alias for ".toList ++ place.path)
    | none =>
      let isThere (path : Text) : Bool := state.world.tree.pathExists state.current (pathNamed path)
      let path? :=
        if name.any (· = '/') then some name
        else if isStandard then none
        else whereIs? state name
      match path?.filter isThere with
      | some path =>
        locate name
        tell path (" is ".toList ++ path)
      | none =>
        if !isBrief then say (name ++ ": not found\n".toList)
        return 127

/-- Tells what commands are. -/
def describeAll : List Text → Act Nat
  | [] => return 0
  | name :: names => do
    let status ← describe false false name
    return status ||| (← describeAll names)

/-- Looks for programs, or lists where those are that have been found. -/
def lookForPrograms (arguments : List Text) : Act Nat := do
  let (options, names) ← takeOptions ['r'] [] arguments
  if options ≠ [] then
    modify fun state => { state with located := [] }
    return 0
  if names = [] then
    for (_, place) in listed programRows (·.1) (← get).located do
      say (place.path ++ (if place.isStale then ['*'] else []) ++ ['\n'])
  let mut status := 0
  for name in names do
    modify fun state =>
      { state with located := state.located.filter fun item => item.1 ≠ name }
    let state ← get
    if !isBuiltin name && (state.functions.lookup name).isNone then
      locate name
      if !name.any (· = '/') && (whereIs? state name).isNone then
        match findProgram state false name with
        | .faulty fault =>
          warn 1 (fault.message name)
          status := 1
        | .shell _ _ => pure ()
  return status

/-- What a test says of words. -/
def runTest (words : List Text) : Act Nat := do
  match test (← get) words with
  | .ok answer => return if answer then 0 else 1
  | .error fault => fail fault

/-- Prints a format with arguments. What cannot be used is complained about first. -/
def runPrintf (arguments : List Text) : Act Nat := do
  match ← withoutOptions arguments with
  | [] => fail "usage: printf format [arg ...]".toList
  | format :: words =>
    let printed := printf format words
    say printed.text
    for complaint in printed.complaints do
      warn 2 complaint
    if printed.invalid then throw .failed
    return if printed.complaints = [] then 0 else 1

/-- Leaves the script. -/
def leave (arguments : List Text) : Act Nat := do
  let state ← get
  finish (← countOr (state.kept?.getD state.status) arguments)
  throw .leave

/-- Leaves the function, or the file that is read. -/
def leaveFunction (arguments : List Text) : Act Nat := do
  finish (← countOr (← get).status arguments)
  throw (.leaveFunction (arguments ≠ []))

/-- Leaves some loops, if there are any around. -/
def leaveLoops (jump : Nat → Jump) (arguments : List Text) : Act Nat := do
  let levels ← countOr 1 arguments
  if levels = 0 then illegalNumber (arguments.headD [])
  let loops := (← get).loops
  finish 0
  if loops ≠ 0 then throw (jump (min levels loops - 1))
  return 0

end Act

/-- The action of a command that is part of the shell; nothing if there is none of this name, or if
it runs other commands. -/
def builtin? (name : Text) (arguments : List Text) : Option (Act Nat) :=
  match String.ofList name with
  | ":" => some (pure 0)
  | "[" =>
    some (if arguments.getLast? = some [']'] then Act.runTest arguments.dropLast
      else Act.fail "missing ]".toList)
  | "alias" => some (Act.setAliases arguments)
  | "bg" => some (Act.continueJob arguments)
  | "break" => some (Act.leaveLoops .leaveLoop arguments)
  | "cd" => some (Act.changeDirectory arguments)
  | "chdir" => some (Act.changeDirectory arguments)
  | "continue" => some (Act.leaveLoops .nextRound arguments)
  | "echo" => some do
    Act.say (echo arguments)
    return 0
  | "exit" => some (Act.leave arguments)
  | "export" => some (Act.markExported arguments)
  | "false" => some (pure 1)
  | "fg" => some (Act.continueJob arguments)
  | "getopts" => some (Act.getOption arguments)
  | "hash" => some (Act.lookForPrograms arguments)
  | "jobs" => some (Act.listJobs arguments)
  | "kill" => some (Act.kill arguments)
  | "local" => some (Act.makeLocal arguments)
  | "printf" => some (Act.runPrintf arguments)
  | "pwd" => some (Act.printDirectory arguments)
  | "read" => some (Act.read arguments)
  | "readonly" => some (Act.markFixed arguments)
  | "return" => some (Act.leaveFunction arguments)
  | "set" => some (Act.setOrShow arguments)
  | "shift" => some (Act.shift arguments)
  | "test" => some (Act.runTest arguments)
  | "times" => some Act.showTimes
  | "trap" => some (Act.trap arguments)
  | "true" => some (pure 0)
  | "type" => some (Act.describeAll arguments)
  | "ulimit" => some (Act.limit arguments)
  | "umask" => some (Act.changeMask arguments)
  | "unalias" => some (Act.unalias arguments)
  | "unset" => some (Act.unsetAll arguments)
  | "wait" => some (Act.wait arguments)
  | _ => none

end Shell

end EngineUpkeep
