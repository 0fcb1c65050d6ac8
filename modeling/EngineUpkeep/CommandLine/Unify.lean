import EngineUpkeep.CommandLine.Basic
import EngineUpkeep.Unify.Plan

/-!
# The command line of a unification

A command line has a command, options in front of it or behind it, and the words that the command
asks for. Options behind the command count before those in front. After a lone `--` every word is
one that the command asks for.

A value or a word is looked at when the next one comes or at the end; a word that is not known is
refused before.
-/

namespace EngineUpkeep

namespace CommandLine

namespace Unify

/-- A command by its name. -/
inductive CommandName where
  /-- Unifies a file. -/
  | file
  /-- Moves a file. -/
  | move
  /-- Carries out a plan. -/
  | plan
  /-- Shows help. -/
  | help
deriving DecidableEq, Repr

/-- The command of a name. -/
def commandName? (name : Text) : Option CommandName :=
  match String.ofList name with
  | "file" => some .file
  | "move" => some .move
  | "plan" => some .plan
  | "help" => some .help
  | _ => none

/-- What is to be done. -/
inductive Command where
  /-- A file is unified or moved. -/
  | operation (operation : Operation)
  /-- A plan is carried out. -/
  | plan (path : Path)
deriving DecidableEq, Repr

/-- What a command line says. -/
structure Arguments where
  /-- The root directory of the project. -/
  root? : Option Path
  /-- Each step is told. -/
  verbose : Bool
  /-- What is to be done. -/
  command : Command
deriving DecidableEq, Repr

/-- The name and the version of the program. -/
def versionText : Text := "unify-files 0.3.0\n"

/-- An option. -/
inductive Key where
  /-- The root directory of the project. -/
  | root
  /-- Each step is told. -/
  | verbose
  /-- Help. -/
  | help
  /-- The version. -/
  | version
deriving DecidableEq, Repr

/-- The option of a long name. The version can be asked for in front of the command only. -/
def longKey? (inCommand : Bool) (name : Text) : Option Key :=
  match String.ofList name with
  | "root" => some .root
  | "verbose" => some .verbose
  | "help" => some .help
  | "version" => if inCommand then none else some .version
  | _ => none

/-- The option of a letter. -/
def shortKey? (inCommand : Bool) : Char → Option Key
  | 'v' => some .verbose
  | 'h' => some .help
  | 'V' => if inCommand then none else some .version
  | _ => none

/-- What is not looked at yet. -/
inductive Waiting where
  /-- Nothing. -/
  | nothing
  /-- The value of the root option, which has not come. -/
  | root
  /-- The value of the root option. -/
  | rootValue (value : Text)
  /-- A word that the command asks for. -/
  | word (word : Text)

/-- The part of a command line on one side of the command, as far as it is read. -/
structure Draft where
  /-- The root directory of the project. -/
  root? : Option Path := none
  /-- Each step is told. -/
  verbose : Bool := false
  /-- The words that the command asks for. -/
  words : List Text := []
  /-- What is not looked at yet. -/
  waiting : Waiting := .nothing

/-- Looks at the word of a command that comes after some others. -/
def checkWord (command : CommandName) (place : Nat) (word : Text) : Except Refusal Unit :=
  match command with
  | .plan => if word = [] then .error .invalidValue else .ok ()
  | _ =>
    if place = 0 && (SourceTree.ofName? word).isNone then .error .invalidValue else .ok ()

namespace Draft

/-- Gives the root option its value. -/
def setRoot (draft : Draft) (value : Text) : Except Refusal Draft :=
  if draft.root?.isSome then .error .repeated
  else (path? value).map fun path => { draft with root? := some path }

/-- Looks at what waits. -/
def settle (command : CommandName) (draft : Draft) : Except Refusal Draft :=
  let settled := { draft with waiting := .nothing }
  match draft.waiting with
  | .nothing => .ok settled
  | .root => .error .invalidValue
  | .rootValue value => settled.setRoot value
  | .word word => do
    checkWord command draft.words.length word
    return { settled with words := draft.words ++ [word] }

/-- Takes an option whose value, if it has one, is to come. -/
def take (command : CommandName) (draft : Draft) (key : Key) : Except Refusal Draft := do
  let draft ← draft.settle command
  match key with
  | .root => .ok { draft with waiting := .root }
  | .verbose => if draft.verbose then .error .repeated else .ok { draft with verbose := true }
  | .help => .error .help
  | .version => .error (.version versionText)

/-- Takes an option with the value that is attached to it. -/
def takeWith (command : CommandName) (draft : Draft) (key : Key) (value : Text) :
    Except Refusal Draft :=
  match key with
  | .root => do (← draft.settle command).setRoot value
  | _ => .error .unexpectedValue

/-- Takes letters that are options. -/
def takeLetters (command : CommandName) (inCommand : Bool) (draft : Draft) :
    Text → Except Refusal Draft
  | [] => .ok draft
  | letter :: rest =>
    match shortKey? inCommand letter with
    | some key => do takeLetters command inCommand (← draft.take command key) rest
    | none => .error .unknownWord

/-- Takes an option by its look. -/
def takeShape (command : CommandName) (inCommand : Bool) (draft : Draft) :
    Shape → Except Refusal Draft
  | .long name value? =>
    match longKey? inCommand name, value? with
    | some key, some value => draft.takeWith command key value
    | some key, none => draft.take command key
    | none, _ => .error .unknownWord
  | .short letters => draft.takeLetters command inCommand letters
  | _ => .ok draft

/-- The number of words that a command can have. -/
def capacity : CommandName → Nat
  | .plan => 1
  | _ => 3

/-- The number of words that have come. -/
def wordCount (draft : Draft) : Nat :=
  match draft.waiting with
  | .word _ => draft.words.length + 1
  | _ => draft.words.length

/-- Takes a word that the command asks for, if it asks for one more. -/
def takeWord (command : CommandName) (draft : Draft) (word : Text) : Except Refusal Draft :=
  if capacity command ≤ draft.wordCount then .error .unknownWord
  else do return { ← draft.settle command with waiting := .word word }

/-- Takes all words as such that the command asks for. -/
def takeWords (command : CommandName) (draft : Draft) : List Text → Except Refusal Draft
  | [] => draft.settle command
  | word :: rest => do takeWords command (← draft.takeWord command word) rest

end Draft

/-- Reads what is behind a command. -/
def readBehind (command : CommandName) (draft : Draft) : List Text → Except Refusal Draft
  | [] => draft.settle command
  | word :: rest =>
    match shapeOf word with
    | .dashes => draft.takeWords command rest
    | .plain =>
      match draft.waiting with
      | .root => readBehind command { draft with waiting := .rootValue word } rest
      | _ => do readBehind command (← draft.takeWord command word) rest
    | shape => do readBehind command (← draft.takeShape command true shape) rest

/-- The command that its name and its words make. -/
def command? (name : CommandName) (words : List Text) : Except Refusal Command :=
  match name, words with
  | .plan, [path] => .ok (.plan ⟨path⟩)
  | .plan, _ => .error .missingWord
  | .help, _ => .error .help
  | kind, source :: file :: target =>
    match SourceTree.ofName? source with
    | some source =>
      let kind := if kind = .move then .move else .unify
      .ok (.operation ⟨kind, source, file, target.head?⟩)
    | none => .error .invalidValue
  | _, _ => .error .missingWord

/-- The refusal of words behind the command that shows help. Each has to be a command, and only the
first can be. -/
def helpRefusal (words : List Text) : Refusal :=
  match words with
  | [] => .help
  | [word] => if (commandName? word).isSome then .help else .unknownCommand
  | _ => .unknownCommand

/-- The refusal of a word in front of the command that is not known. -/
def strayRefusal (words : List Text) : Refusal :=
  match words with
  | word :: _ => if (commandName? word).isSome then .unknownWord else .unknownCommand
  | [] => .missingCommand

/-- The refusal of a command line without command. -/
def emptyRefusal (draft : Draft) : Refusal :=
  if draft.root?.isSome || draft.verbose then .missingCommand else .nothing

/-- Reads a command with what is behind it. The options in front of it are looked at last. -/
def readCommand (front : Draft) (name : CommandName) (words : List Text) :
    Except Refusal Arguments := do
  if name = .help then .error (helpRefusal words)
  else
    let behind ← readBehind name {} words
    let command ← command? name behind.words
    -- A value that waits in front of the command is looked at after all that is behind it.
    let front ← front.settle name
    return { root? := behind.root?.or front.root?
             verbose := front.verbose || behind.verbose
             command }

/-- Reads what is left in front of the command. -/
def readFrom (draft : Draft) : List Text → Except Refusal Arguments
  | [] => do .error (emptyRefusal (← draft.settle .help))
  | word :: rest =>
    match shapeOf word with
    | .dashes => do
      -- Behind the dashes no word can be a command any more.
      if rest = [] then .error (emptyRefusal (← draft.settle .help))
      else .error (strayRefusal rest)
    | .plain =>
      match draft.waiting with
      | .root => readFrom { draft with waiting := .rootValue word } rest
      | _ =>
        match commandName? word with
        | some name => readCommand draft name rest
        | none => .error .unknownCommand
    | shape => do readFrom (← draft.takeShape .help false shape) rest

/-- Reads a command line without the name of the program. -/
def read (words : List Text) : Except Refusal Arguments :=
  readFrom {} words

end Unify

end CommandLine

end EngineUpkeep
