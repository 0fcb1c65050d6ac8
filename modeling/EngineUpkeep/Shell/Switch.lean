import EngineUpkeep.Shell.Script

/-!
# Switches

The switches that `set` turns on and off. Most of them have a letter, and all have a name.
-/

namespace EngineUpkeep

namespace Shell

/-- A switch of a shell. -/
inductive Switch where
  /-- A command that fails ends the script. -/
  | errexit
  /-- Patterns are not expanded to paths. -/
  | noglob
  /-- The end of the input does not end the shell. -/
  | ignoreeof
  /-- Commands come from a person. -/
  | interactive
  /-- Jobs are told apart. -/
  | monitor
  /-- Commands are read and not run. -/
  | noexec
  /-- Commands come from the input. -/
  | stdin
  /-- Commands are shown before they run. -/
  | xtrace
  /-- Lines are shown when they are read. -/
  | verbose
  /-- Lines are edited in one way. -/
  | vi
  /-- Lines are edited in another way. -/
  | emacs
  /-- Files that are there are not written anew. -/
  | noclobber
  /-- Every variable that is set is exported. -/
  | allexport
  /-- The end of a job is told at once. -/
  | notify
  /-- A parameter that is not set cannot be used. -/
  | nounset
  /-- The shell keeps its rights. -/
  | privileged
  /-- Functions are not remembered. -/
  | nolog
  /-- The shell tells of its work. -/
  | debug
deriving DecidableEq, Repr

namespace Switch

/-- All switches. -/
def all : List Switch :=
  [errexit, noglob, ignoreeof, interactive, monitor, noexec, stdin, xtrace, verbose, vi, emacs,
    noclobber, allexport, notify, nounset, privileged, nolog, debug]

/-- The name of a switch. -/
def name : Switch → Text
  | errexit => "errexit"
  | noglob => "noglob"
  | ignoreeof => "ignoreeof"
  | interactive => "interactive"
  | monitor => "monitor"
  | noexec => "noexec"
  | stdin => "stdin"
  | xtrace => "xtrace"
  | verbose => "verbose"
  | vi => "vi"
  | emacs => "emacs"
  | noclobber => "noclobber"
  | allexport => "allexport"
  | notify => "notify"
  | nounset => "nounset"
  | privileged => "privileged"
  | nolog => "nolog"
  | debug => "debug"

/-- The letter of a switch, if it has one. -/
def letter? : Switch → Option Char
  | errexit => some 'e'
  | noglob => some 'f'
  | ignoreeof => some 'I'
  | interactive => some 'i'
  | monitor => some 'm'
  | noexec => some 'n'
  | stdin => some 's'
  | xtrace => some 'x'
  | verbose => some 'v'
  | vi => some 'V'
  | emacs => some 'E'
  | noclobber => some 'C'
  | allexport => some 'a'
  | notify => some 'b'
  | nounset => some 'u'
  | privileged => some 'p'
  | nolog => none
  | debug => none

/-- The switch with a letter. -/
def ofLetter? (letter : Char) : Option Switch :=
  all.find? fun switch => switch.letter? = some letter

/-- The switch with a name. -/
def ofName? (name : Text) : Option Switch :=
  all.find? fun switch => switch.name = name

/-- The letters of the switches that are on. -/
def lettersOf (on : List Switch) : Text :=
  (all.filter on.contains).reverse.filterMap letter?

/-- The switches that are on after one has been turned. -/
def turn (on : List Switch) (switch : Switch) (value : Bool) : List Switch :=
  if value then switch :: on.filter (· ≠ switch) else on.filter (· ≠ switch)

/-- The switches without the one that cannot be on together with another. Each of the two ways to edit
lines excludes the other one. -/
def withoutRival (on : List Switch) (switch : Switch) (value : Bool) : List Switch :=
  if !value then on
  else match switch with
    | vi => turn on emacs false
    | emacs => turn on vi false
    | _ => on

/-- A table of all switches. -/
def table (on : List Switch) : Text :=
  "Current option settings\n".toList ++ all.flatMap fun switch =>
    switch.name ++ List.replicate (16 - switch.name.length) ' ' ++
      (if on.contains switch then "on\n" else "off\n").toList

/-- The commands that turn all switches as they are. -/
def commands (on : List Switch) : Text :=
  all.flatMap fun switch =>
    (if on.contains switch then "set -o " else "set +o ").toList ++ switch.name ++ ['\n']

end Switch

end Shell

end EngineUpkeep
