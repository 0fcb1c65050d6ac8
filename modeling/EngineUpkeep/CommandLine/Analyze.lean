import EngineUpkeep.Analysis
import EngineUpkeep.CommandLine.Basic

/-!
# The command line of an analysis

Options come first. The first word that is neither an option nor the value of one begins the
trailing words, and so does a lone `--`, which is not one of them. From there on every word is a
trailing one, whatever it looks like. A word of one dash counts as options only if all its letters are
known.

The value of an option is looked at when the next option, the first trailing word or the end comes.
-/

namespace EngineUpkeep

namespace CommandLine

namespace Analyze

/-- An option with a value. -/
inductive ValueOption where
  /-- The directory of the compile database. -/
  | buildDirectory
  /-- A pattern of sources to analyze. -/
  | include
  /-- A pattern of sources to leave out. -/
  | exclude
  /-- The number of workers. -/
  | jobs
  /-- The root directory of the project. -/
  | projectRoot
deriving DecidableEq, Repr

/-- An option without value. -/
inductive Flag where
  /-- The analyzer is to apply its suggestions. -/
  | fix
  /-- Details are printed. -/
  | verbose
  /-- The plugin is not loaded. -/
  | withoutPlugin
  /-- The report is printed as JSON. -/
  | json
deriving DecidableEq, Repr

/-- What an option stands for. -/
inductive Key where
  /-- An option with a value. -/
  | valued (option : ValueOption)
  /-- An option without value. -/
  | flag (flag : Flag)
  /-- Help. -/
  | help
  /-- The version. -/
  | version
deriving DecidableEq, Repr

/-- The option of a long name. -/
def longKey? (name : Text) : Option Key :=
  match String.ofList name with
  | "build-dir" => some (.valued .buildDirectory)
  | "include" => some (.valued .include)
  | "exclude" => some (.valued .exclude)
  | "jobs" => some (.valued .jobs)
  | "project-root" => some (.valued .projectRoot)
  | "fix" => some (.flag .fix)
  | "verbose" => some (.flag .verbose)
  | "no-plugin" => some (.flag .withoutPlugin)
  | "json" => some (.flag .json)
  | "help" => some .help
  | "version" => some .version
  | _ => none

/-- The option of a letter. -/
def shortKey? : Char → Option Key
  | 'b' => some (.valued .buildDirectory)
  | 'i' => some (.valued .include)
  | 'e' => some (.valued .exclude)
  | 'j' => some (.valued .jobs)
  | 'v' => some (.flag .verbose)
  | 'h' => some .help
  | 'V' => some .version
  | _ => none

/-- What a command line says. -/
structure Arguments where
  /-- The directory of the compile database. -/
  buildDirectory? : Option Path := none
  /-- The patterns of sources to analyze. -/
  includes : List Text := []
  /-- The patterns of sources to leave out. -/
  excludes : List Text := []
  /-- The analyzer is to apply its suggestions. -/
  fix : Bool := false
  /-- The number of workers. -/
  jobs? : Option Nat := none
  /-- Details are printed. -/
  verbose : Bool := false
  /-- The plugin is not loaded. -/
  withoutPlugin : Bool := false
  /-- The report is printed as JSON. -/
  json : Bool := false
  /-- The root directory of the project. -/
  projectRoot? : Option Path := none
  /-- The words after the options. -/
  trailing : List Text := []
deriving DecidableEq, Repr

namespace Arguments

/-- Gives a value to an option. Patterns can be given again and again. -/
def set (arguments : Arguments) (option : ValueOption) (value : Text) :
    Except Refusal Arguments :=
  match option with
  | .include => .ok { arguments with includes := arguments.includes ++ [value] }
  | .exclude => .ok { arguments with excludes := arguments.excludes ++ [value] }
  | .buildDirectory =>
    if arguments.buildDirectory?.isSome then .error .repeated
    else (path? value).map fun path => { arguments with buildDirectory? := some path }
  | .projectRoot =>
    if arguments.projectRoot?.isSome then .error .repeated
    else (path? value).map fun path => { arguments with projectRoot? := some path }
  | .jobs =>
    if arguments.jobs?.isSome then .error .repeated
    else match count? value with
      | some count => .ok { arguments with jobs? := some count }
      | none => .error .unreadableValue

/-- Gives an option without value. -/
def raise (arguments : Arguments) : Flag → Except Refusal Arguments
  | .fix => if arguments.fix then .error .repeated else .ok { arguments with fix := true }
  | .verbose =>
    if arguments.verbose then .error .repeated else .ok { arguments with verbose := true }
  | .withoutPlugin =>
    if arguments.withoutPlugin then .error .repeated
    else .ok { arguments with withoutPlugin := true }
  | .json => if arguments.json then .error .repeated else .ok { arguments with json := true }

/-- The request that a command line makes. There is at least one worker; `defaultJobs` are there if
their number is not given. -/
def request (arguments : Arguments) (defaultJobs : Nat) : Request :=
  { buildDirectory? := arguments.buildDirectory?
    includes := arguments.includes
    excludes := arguments.excludes
    trailing := arguments.trailing
    options :=
      { fix := arguments.fix
        jobs := max (arguments.jobs?.getD defaultJobs) 1
        verbose := arguments.verbose
        usesPlugin := !arguments.withoutPlugin
        json := arguments.json } }

end Arguments

/-- The name and the version of the program. -/
def versionText : Text := "run-clang-tidy 0.3.0\n"

/-- A command line as far as it is read. -/
structure Draft where
  /-- What it says up to now. -/
  arguments : Arguments := {}
  /-- The option whose value is not looked at yet, with the value if it has come. -/
  waiting? : Option (ValueOption × Option Text) := none

namespace Draft

/-- Looks at the value that waits. -/
def settle (draft : Draft) : Except Refusal Arguments :=
  match draft.waiting? with
  | none => .ok draft.arguments
  | some (_, none) => .error .invalidValue
  | some (option, some value) => draft.arguments.set option value

/-- Takes an option whose value, if it has one, is to come. -/
def take (draft : Draft) : Key → Except Refusal Draft
  | .valued option => do return ⟨← draft.settle, some (option, none)⟩
  | .flag flag => do return ⟨← (← draft.settle).raise flag, none⟩
  | .help => do
    let _ ← draft.settle
    .error .help
  | .version => do
    let _ ← draft.settle
    .error (.version versionText)

/-- Takes an option with the value that is attached to it. -/
def takeWith (draft : Draft) (key : Key) (value : Text) : Except Refusal Draft :=
  match key with
  | .valued option => do return ⟨← (← draft.settle).set option value, none⟩
  | _ => .error .unexpectedValue

/-- Takes letters that are options. What follows the letter of an option with a value is its value.
-/
def takeLetters (draft : Draft) : Text → Except Refusal Draft
  | [] => .ok draft
  | letter :: rest =>
    match shortKey? letter with
    | none => .error .unknownWord
    | some (.valued option) =>
      if rest = [] then draft.take (.valued option) else draft.takeWith (.valued option) rest
    | some key => do takeLetters (← draft.take key) rest

end Draft

/-- What a word is at a place where options may stand. -/
inductive Role where
  /-- The end of the options. -/
  | dashes
  /-- An option. -/
  | key (key : Key)
  /-- An option with a value. -/
  | keyWith (key : Key) (value : Text)
  /-- Letters that are options. -/
  | letters (letters : Text)
  /-- No option. -/
  | plain
deriving DecidableEq, Repr

/-- What a word is at a place where options may stand. -/
def roleOf (word : Text) : Role :=
  match shapeOf word with
  | .dashes => .dashes
  | .long name value? =>
    match longKey? name, value? with
    | some key, some value => .keyWith key value
    | some key, none => .key key
    -- A long name that is not known may be a word for the analyzer.
    | none, _ => .plain
  | .short letters => if letters.all fun c => (shortKey? c).isSome then .letters letters else .plain
  | .plain => .plain

/-- Reads the words that are left. -/
def readFrom (draft : Draft) : List Text → Except Refusal Arguments
  | [] => draft.settle
  | word :: rest =>
    match roleOf word with
    | .dashes => do return { ← draft.settle with trailing := rest }
    | .key key => do readFrom (← draft.take key) rest
    | .keyWith key value => do readFrom (← draft.takeWith key value) rest
    | .letters letters => do readFrom (← draft.takeLetters letters) rest
    | .plain =>
      match draft.waiting? with
      -- The word is the value of the option in front of it.
      | some (option, none) => readFrom { draft with waiting? := some (option, some word) } rest
      | _ => do return { ← draft.settle with trailing := word :: rest }

/-- Reads a command line without the name of the program. -/
def read (words : List Text) : Except Refusal Arguments :=
  readFrom {} words

end Analyze

end CommandLine

end EngineUpkeep
