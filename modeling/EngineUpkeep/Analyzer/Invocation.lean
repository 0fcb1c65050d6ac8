import EngineUpkeep.Workload.Basic
import EngineUpkeep.Host

/-!
# Invocations of the analyzer

How the analyzer is started on a batch: in the project root, with the directory of the compile
database, the extra arguments and then the files. What it prints to its output counts first, what it
prints to its errors after that.
-/

namespace EngineUpkeep

/-- How the analyzer is started. -/
structure Invocation where
  /-- The program. -/
  exe : Text
  /-- The directory of the compile database. -/
  compileDirectory : Path
  /-- The analyzer is to apply its suggestions. -/
  fix : Bool := false
  /-- The arguments in front of the files. -/
  extraArguments : List Text := []
  /-- The root directory of the project. -/
  root : Path
deriving DecidableEq, Repr

namespace Invocation

/-- The arguments for a batch. -/
def arguments (invocation : Invocation) (batch : Batch) : List Text :=
  ("-p=" ++ invocation.compileDirectory.text) ::
    (if invocation.fix then ["--fix"] else []) ++ invocation.extraArguments ++ batch

/-- The exit code that counts for an ending. -/
def exitCode : Shell.Ending → Int
  | .exited code => code
  | _ => 1

/-- What counts of a program that was started. One that cannot be started fails without a word. -/
def replyOf : Option Execution → Reply
  | some execution =>
    { exitCode := exitCode execution.ending
      -- Each stream is decoded by itself, so a character that one leaves open is not completed by
      -- the other.
      text := Utf8.decodeLenient execution.output ++ Utf8.decodeLenient execution.errors }
  | none => ⟨1, []⟩

/-- The analyzer of a host. It is started on each batch. -/
def run (invocation : Invocation) : Analyzer Host := fun batch host =>
  let (execution?, host) :=
    host.launch (some invocation.root) invocation.exe (invocation.arguments batch)
  (replyOf execution?, host)

end Invocation

end EngineUpkeep
