import EngineUpkeep.Host
import EngineUpkeep.Text.Blank

/-!
# Looking for the analyzer

The analyzer is the one that the environment or the settings name, if it can be used, and else the
one that the search path has. A named one can be used if it is a file or answers when it is asked
for its version. A program that is asked may change the host.
-/

namespace EngineUpkeep

namespace Tool

/-- The name of the analyzer in the search path. -/
def defaultName : Text := "clang-tidy"

/-- The argument that asks a program for its version. -/
def versionFlag : Text := "--version"

/-- The most bytes that a program can print before somebody reads them. -/
def pipeCapacity : Nat := 65536

/-- What a program answers when it is asked for its version: what it prints, without blanks around
it, if it succeeds in time. Its answer is read when it has ended, so one that prints too much does
not end. A program that is given no time does nothing. The host may be changed. -/
def probe (host : Host) (exe : Text) (hasTime : Bool) : Option Text × Host :=
  if !hasTime then (none, host)
  else match host.launch none exe [versionFlag] with
    | (some ⟨.exited 0, output, _⟩, host) =>
      (if output.length ≤ pipeCapacity then some (Text.trim (Utf8.decodeLenient output)) else none,
        host)
    | (_, host) => (none, host)

/-- What a program answers in the time that the settings allow. -/
def probeFor (host : Host) (settings : AnalysisSection) (exe : Text) : Option Text × Host :=
  probe host exe (0 < settings.probeSeconds)

/-- The analyzer that the environment names, or else the settings. A name without characters in the
environment names nothing. -/
def named? (host : Host) (settings : AnalysisSection) : Option Text :=
  match host.override? with
  | some exe => if exe = [] then settings.analyzer? else some exe
  | none => settings.analyzer?

/-- A program can be used if it is a file or answers. The host may be changed. -/
def isUsable (host : Host) (settings : AnalysisSection) (exe : Text) : Bool × Host :=
  if host.tree.isFile host.current ⟨exe⟩ then (true, host)
  else
    let (answer?, host) := probeFor host settings exe
    (answer?.isSome, host)

/-- The named analyzer, if there is one that can be used. -/
def usable? (host : Host) (settings : AnalysisSection) : Option Text × Host :=
  match named? host settings with
  | none => (none, host)
  | some exe =>
    let (isUsable, host) := isUsable host settings exe
    (if isUsable then some exe else none, host)

/-- The analyzer to use, and the host that the search for it leaves. -/
def find (host : Host) (settings : AnalysisSection) : Except Failure Text × Host :=
  match usable? host settings with
  | (some exe, host) => (.ok exe, host)
  | (none, host) =>
    -- A choice of the environment that cannot be used hides the one of the settings.
    let (answer?, host) := probeFor host settings defaultName
    (if answer?.isSome then .ok defaultName else .error .noAnalyzer, host)

end Tool

end EngineUpkeep
