import EngineUpkeep.Text.Basic

/-!
# Signals of the system

A signal has a number below `signalLimit`, and most have a name. What happens to a process that gets
a signal which it does not expect depends on the number (`reactionTo`). The number zero stands for
the end of a script where scripts say what is to be done on a signal.
-/

namespace EngineUpkeep

namespace Shell

/-- The numbers of signals are below this one. -/
def signalLimit : Nat := 65

/-- The names of the first signals with what they are called where they have ended a process. -/
def firstSignals : List (String × String) :=
  [("EXIT", ""), ("HUP", "Hangup"), ("INT", "Interrupt"), ("QUIT", "Quit"),
    ("ILL", "Illegal instruction"), ("TRAP", "Trace/breakpoint trap"), ("ABRT", "Aborted"),
    ("BUS", "Bus error"), ("FPE", "Floating point exception"), ("KILL", "Killed"),
    ("USR1", "User defined signal 1"), ("SEGV", "Segmentation fault"),
    ("USR2", "User defined signal 2"), ("PIPE", "Broken pipe"), ("ALRM", "Alarm clock"),
    ("TERM", "Terminated"), ("16", "Stack fault"), ("CHLD", ""), ("CONT", ""), ("STOP", ""),
    ("TSTP", ""), ("TTIN", ""), ("TTOU", ""), ("URG", ""), ("XCPU", "CPU time limit exceeded"),
    ("XFSZ", "File size limit exceeded"), ("VTALRM", "Virtual timer expired"),
    ("PROF", "Profiling timer expired"), ("WINCH", ""), ("IO", "I/O possible"),
    ("PWR", "Power failure"), ("SYS", "Bad system call")]

/-- The name of a signal. Those without a name of their own have their distance from a named one, or
their number. -/
def signalName (number : Nat) : Text :=
  match firstSignals[number]? with
  | some (name, _) => name.toList
  | none =>
    if number < 34 then Text.ofNat number
    else if number = 34 then "RTMIN"
    else if number < 50 then "RTMIN+".toList ++ Text.ofNat (number - 34)
    else if number < 64 then "RTMAX-".toList ++ Text.ofNat (64 - number)
    else "RTMAX"

/-- What a signal is called where it has ended a process. -/
def signalText (number : Nat) : Text :=
  match firstSignals[number]? with
  | some (_, text) => text.toList
  | none =>
    if number < 34 then "Unknown signal ".toList ++ Text.ofNat number
    else "Real-time signal ".toList ++ Text.ofNat (number - 34)

/-- What is said of a process that a signal ended; empty if nothing is, since interrupts and broken
pipes are no news. -/
def farewellOf (number : Nat) : Text :=
  if number = 2 || number = 13 then [] else signalText number

/-- The number of a signal that is given by its number or, in any case, its name. Names count from
the number `least` on. -/
def signalNumber? (least : Nat) (text : Text) : Option Nat :=
  if text ≠ [] && text.all Text.isAsciiDigit then
    if Text.asciiValue text < signalLimit then some (Text.asciiValue text) else none
  else
    (List.range signalLimit).find? fun number =>
      least ≤ number && (signalName number).map Text.lowerAscii = text.map Text.lowerAscii

/-- What a signal does to a process that does not expect it. -/
inductive Reaction where
  /-- It ends the process. -/
  | dies
  /-- It stops the process until another signal. -/
  | stops
  /-- Nothing. -/
  | none
deriving DecidableEq, Repr

/-- What a signal does to a process that does not expect it. -/
def reactionTo (number : Nat) : Reaction :=
  if [0, 17, 18, 23, 28].contains number then .none
  else if 19 ≤ number && number ≤ 22 then .stops
  else .dies

/-- No process can choose what a signal does to it. -/
def isForced (number : Nat) : Bool :=
  number = 9 || number = 19

end Shell

end EngineUpkeep
