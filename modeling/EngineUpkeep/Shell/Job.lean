import EngineUpkeep.Shell.SystemSignal

/-!
# Jobs

A job is what a script has started without waiting for it: the process of a command, or those of a
pipe. A job has a place in the table of its shell, and the number of the place is its name. The last
job that was started is the *current* one.

A shell *notices* that processes have ended whenever it waits for one. A job that has ended and has
been waited for keeps its place until a command needs one.
-/

namespace EngineUpkeep

namespace Shell

/-- How a process ended. -/
inductive ProcessEnd where
  /-- With a status. -/
  | exited (status : Nat)
  /-- By a signal. -/
  | killed (signal : Nat)
deriving DecidableEq, Repr

namespace ProcessEnd

/-- The status that tells of the end. -/
def status : ProcessEnd → Nat
  | exited status => status
  | killed signal => 128 + signal

/-- The end in a listing. -/
def label : ProcessEnd → Text
  | exited 0 => "Done"
  | exited status => "Done(".toList ++ Text.ofNat status ++ [')']
  | killed signal => signalText signal

/-- What a shell says of the end when it waits for the process. -/
def farewell : ProcessEnd → Text
  | exited _ => []
  | killed signal => if farewellOf signal = [] then [] else farewellOf signal ++ ['\n']

end ProcessEnd

/-- A job. -/
structure Job where
  /-- The number of its last process. -/
  process : Nat
  /-- How many processes it has. -/
  size : Nat
  /-- How its processes ended; nothing if they go on. -/
  ends? : Option (List ProcessEnd)
  /-- The shell has noticed that it ended. -/
  isNoticed : Bool := false
  /-- It has been waited for. -/
  isWaited : Bool := false
deriving Repr

namespace Job

/-- How the job ended, which is how its last process did. -/
def ending? (job : Job) : Option ProcessEnd :=
  job.ends? >>= List.getLast?

/-- The job has ended. -/
def isOver (job : Job) : Bool :=
  job.ends?.isSome

/-- The job with what is noticed now. -/
def noticed (job : Job) : Job :=
  { job with isNoticed := job.isOver }

/-- The line of a listing about the job. The place of the command is empty. -/
def line (job : Job) (number : Nat) (mark : Char) (showsProcess : Bool) : Text :=
  let front := '[' :: Text.ofNat number ++ "] ".toList ++ [mark, ' ']
  let process := if showsProcess then Text.ofNat job.process ++ [' '] else []
  let state := match job.ending? with
    | some ending => ending.label
    | none => "Running".toList
  let line := front ++ process ++ state
  let blanks := List.replicate (33 - line.length) ' '
  line ++ blanks ++ (List.replicate (job.size - 1) " | ".toList).flatten ++ ['\n']

end Job

/-- The places for jobs. The first one has the number one. -/
abbrev JobTable := List (Option Job)

namespace JobTable

/-- The number of the first place that a command can have, less one. -/
def firstPlace (table : JobTable) : Nat :=
  table.findIdx fun slot => slot.all fun job => job.isOver && job.isWaited

/-- The first place that a command can have is empty. -/
def cleared (table : JobTable) : JobTable :=
  table.modify table.firstPlace fun _ => none

/-- A job has the first place that it can have. -/
def add (table : JobTable) (job : Job) : JobTable :=
  if table.firstPlace < table.length then table.modify table.firstPlace fun _ => some job
  else table ++ [some job]

/-- The shell has noticed all that ended. -/
def noticed (table : JobTable) : JobTable :=
  table.map fun slot => slot.map Job.noticed

/-- A command in the foreground has had a place and left it, and the shell has waited for it. -/
def afterForeground (table : JobTable) : JobTable :=
  table.cleared.noticed

/-- The jobs with their numbers, the last one that was started first. -/
def newestFirst (table : JobTable) : List (Nat × Job) :=
  let jobs := table.zipIdx.filterMap fun (slot, index) => slot.map fun job => (index + 1, job)
  jobs.mergeSort fun a b => b.2.process ≤ a.2.process

/-- The job with a last process. -/
def ofProcess? (table : JobTable) (process : Nat) : Option (Nat × Job) :=
  table.newestFirst.find? fun item => item.2.process = process

/-- The job with a number is changed, or gone. -/
def alter (table : JobTable) (number : Nat) (change : Job → Option Job) : JobTable :=
  table.modify (number - 1) fun slot => slot.bind change

/-- The job that a word names, or why there is none. Jobs have no names but their numbers, so that
no word but an empty one is a part of the name. -/
def find (table : JobTable) (word : Text) : Except Text (Nat × Job) :=
  let jobs := table.newestFirst
  let numbered (text : Text) : Option (Nat × Job) :=
    if text ≠ [] && text.all Text.isAsciiDigit then
      jobs.find? fun item => item.1 = Text.asciiValue text
    else none
  let orElse (found? : Option (Nat × Job)) (fault : Text) : Except Text (Nat × Job) :=
    match found? with
    | some found => .ok found
    | none => .error fault
  match word with
  | '%' :: name =>
    if [[], ['+'], ['%']].contains name then orElse jobs.head? "No current job".toList
    else if name = ['-'] then orElse (jobs.drop 1).head? "No previous job".toList
    else if name = ['?'] && 1 < jobs.length then .error (word ++ ": ambiguous".toList)
    else if name = ['?'] then orElse jobs.head? ("No such job: ".toList ++ word)
    else orElse (numbered name) ("No such job: ".toList ++ word)
  | _ => .error ("No such job: ".toList ++ word)

/-- The sign of a job in a listing, which tells the current one and the one before it. -/
def mark (table : JobTable) (number : Nat) : Char :=
  let numbers := table.newestFirst.map (·.1)
  if numbers.head? = some number then '+'
  else if numbers[1]? = some number then '-'
  else ' '

end JobTable

end Shell

end EngineUpkeep
