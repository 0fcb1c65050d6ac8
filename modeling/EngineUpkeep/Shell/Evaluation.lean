import EngineUpkeep.Shell.Builtin
import EngineUpkeep.Shell.Launch
import EngineUpkeep.Shell.Matching
import EngineUpkeep.Shell.Reader

/-!
# Running scripts

The words of a command are expanded, its redirections and assignments are carried out, and then the
command is. A script is read line by line, so what stands in a line is done before the next one is
looked at. Commands whose status is looked at are *tested*; only others end a script for which
failures count.

A part of a script that runs in a process of its own runs in a copy of the shell, to its end, before
the script goes on. A script that does not end is given up after `patience` nested steps, so that
every run has an end (`run`).
-/

namespace EngineUpkeep

namespace Shell

/-- The text without the line feeds at its end. -/
def dropFinalBreaks (text : Text) : Text :=
  (text.reverse.dropWhile (· = '\n')).reverse

/-- How words are expanded. -/
structure Manner where
  /-- The pieces make fields. -/
  isSplit : Bool := false
  /-- The word is the value of a variable. -/
  isValue : Bool := false

/-- A redirection whose words are expanded, apart from a here-document. -/
inductive Opening where
  /-- To a file. -/
  | file (number : Nat) (access : Access) (name : Text)
  /-- To where another number leads; to nothing if there is none. -/
  | stream (number : Nat) (other? : Option Nat)
  /-- To a here-document. -/
  | document (number : Nat) (word : Word)

/-- The number of the stream that a redirection is for. -/
def Redirection.number : Redirection → Nat
  | file number _ _ => number
  | stream number _ => number
  | document number _ => number

/-- Where the lines come from that a shell runs. -/
structure Supply where
  /-- The stream from which they are read; nothing if they are all there. -/
  stream? : Option Nat := none
  /-- The shell runs nothing else. -/
  isScript : Bool := false

namespace Supply

/-- The bytes that are read from a stream at once. -/
def blockSize : Nat := 8192

/-- The text that has not been read from the stream. -/
def left (supply : Supply) (world : World) : Text :=
  (supply.stream? >>= world.rest?).getD []

/-- Reads as many blocks as are needed for some characters. The number of those that are left after
the blocks comes with the world. -/
def read (supply : Supply) (world : World) (count : Nat) : Nat × World :=
  let size := (count + blockSize - 1) / blockSize * blockSize
  let left := (supply.left world).length
  match supply.stream? with
  | some stream => (left - size, world.advance stream (min size left))
  | none => (0, world)

end Supply

/-- How a command stands among others. -/
structure Position where
  /-- Its status is looked at. -/
  isTested : Bool := false
  /-- It is the last one that its process runs. -/
  isLast : Bool := false

namespace Position

/-- The position of a command whose status is looked at. -/
def tested : Position :=
  { isTested := true }

/-- The position of a command inside another one, after which something else is done. -/
def inner (position : Position) : Position :=
  { position with isLast := false }

/-- The position of a command of a process, which does nothing else. -/
def whole (position : Position) : Position :=
  { position with isLast := true }

end Position

/-- What follows a round of a loop. -/
inductive Round where
  /-- The next round. -/
  | again
  /-- The end of the loop, perhaps with a jump. -/
  | over (jump? : Option Jump)

namespace Jump

/-- What the jump out of a round means for its loop. -/
def round : Jump → Round
  | nextRound 0 => .again
  | nextRound (levels + 1) => .over (some (nextRound levels))
  | leaveLoop 0 => .over none
  | leaveLoop (levels + 1) => .over (some (leaveLoop levels))
  | jump => .over (some jump)

/-- The jump ends the process. -/
def isFinal : Jump → Bool
  | leaveFunction _ => false
  | leaveLoop _ => false
  | nextRound _ => false
  | _ => true

/-- The jump is one that nothing can be done about. -/
def isFatal : Jump → Bool
  | killed _ => true
  | stuck => true
  | _ => false

end Jump

namespace State

/-- Some numbers of streams are again as in an earlier state. -/
def restoreStreams (state before : State) (redirections : List Redirection) : State :=
  redirections.foldl
    (fun state redirection =>
      state.setStream redirection.number (before.streamOf? redirection.number))
    state

/-- The text that a variable or an argument, or all of them, put into a word. -/
def valuePieces (state : State) (manner : Manner) (quoted : Bool) (name value : Text) :
    List Piece :=
  let words := state.parameters.words
  if manner.isSplit && (name = ['@'] || name = ['*']) then
    if !quoted then [.split (Text.join ['\x00'] words)]
    else if name = ['@'] then [.separate words]
    else [.whole value true]
  else if quoted then [.whole value true]
  else [.split value]

/-- The home directory that a name after a tilde stands for; that of the user, if there is no name. -/
def homeOf? (state : State) (name : Text) : Option Text :=
  if name = [] then state.valueOf? "HOME".toList
  else if name = "root".toList then some "/root"
  else none

/-- The pieces of a text that is not quoted, where a tilde with a name can stand for a home directory:
at the beginning of a word, and in a value after each colon. -/
def plainPieces (state : State) (manner : Manner) (atStart atEnd : Bool) (text : Text) :
    List Piece :=
  if '~' ∉ text then [.whole text false]
  else
    let items := if manner.isValue then Text.pieces text ':' else [text]
    let last := items.length - 1
    let pieces := items.zipIdx.map fun (item, index) =>
      let isPlace := index ≠ 0 || atStart
      let isClosed := index ≠ last || atEnd
      let name := (item.drop 1).takeWhile (· ≠ '/')
      let rest := item.drop (1 + name.length)
      let home? :=
        if item.head? = some '~' && isPlace && (rest ≠ [] || isClosed) then state.homeOf? name
        else none
      match home? with
      | some home => [if home = [] then Piece.split [] else .whole home true, .whole rest false]
      | none => [.whole item false]
    (pieces.intersperse [.whole [':'] false]).flatten

end State

/-- The only field that a word makes, if no expansion is needed to see it. -/
def plainField? : Word → Option Text
  | [.chars text true] => some text
  | [.chars text false] =>
    if text ≠ [] && text.all fun c => c ∉ ['*', '?', '[', '\\', '~'] then some text else none
  | _ => none

/-- The fields that the pieces of a word make. -/
def pathFields (state : State) (pieces : List Piece) : List Text :=
  (fieldsOf state.separators pieces).flatMap (expandPattern state)

/-- The name that a command in a pipe has before anything is expanded. A shell looks for such a
program by itself, and not in the copy that runs it. -/
def programName? : Command → Option Text
  | .simple _ _ (word :: _) _ => (plain? word).filter fun name => isName name && !isBuiltin name
  | _ => none

/-- How a command is called. -/
structure Call where
  /-- The name and the arguments. -/
  words : List Text
  /-- The command is no function, and not special, since `command` stands in front of it. -/
  isPlain : Bool := false
  /-- A program is one of the system, since `command` has an option that says so. -/
  isStandard : Bool := false

/-- The words after `command` and its options that are a command themselves, and whether programs of
the system are meant, if there are any words. -/
def commandWords? (isStandard : Bool) : List Text → Option (List Text × Bool)
  | [] => none
  | word :: rest =>
    match word with
    | ['-', '-'] => if rest = [] then none else some (rest, isStandard)
    | '-' :: c :: letters =>
      if (c :: letters).all (· = 'p') then commandWords? true rest else none
    | _ => some (word :: rest, isStandard)

/-- How fields call a command. Each step takes `command` away. -/
def callUpTo (state : State) : Nat → Call → Call
  | 0, call => call
  | fuel + 1, call =>
    match call.words with
    | name :: rest =>
      let isFunction := !call.isPlain && (state.functions.lookup name).isSome
      if name = "command".toList && !isFunction then
        match commandWords? call.isStandard rest with
        | some (words, isStandard) => callUpTo state fuel ⟨words, true, isStandard⟩
        | none => { call with isPlain := true }
      else call
    | [] => call

/-- How fields call a command. -/
def callOf (state : State) (fields : List Text) : Call :=
  callUpTo state (fields.length + 1) { words := fields }

namespace Call

/-- The body of the function that is called. -/
def function? (state : State) (call : Call) : Option Command :=
  if call.isPlain then none else state.functions.lookup (call.words.headD [])

/-- The command is special. -/
def isSpecial (state : State) (call : Call) : Bool :=
  !call.isPlain && (call.function? state).isNone && specialNames.contains (call.words.headD [])

/-- The arguments can be assignments, which are not split. -/
def isAssigning (state : State) (call : Call) : Bool :=
  (call.function? state).isNone && assigningNames.contains (call.words.headD [])

/-- What is called is a program. -/
def isProgram (state : State) (call : Call) : Bool :=
  call.words ≠ [] && (call.function? state).isNone && !isBuiltin (call.words.headD [])

end Call

namespace Act

/-- Carries out an action, and gives the jump out of it instead of taking it. -/
def attempt {α : Type} (action : Act α) : Act (Except Jump α) := fun state =>
  let (result, state) := action state
  (.ok result, state)

/-- Carries out an action as a command that is part of the shell. If it fails, that is the end of the
script only for a special one. -/
def perform (name : Text) (isSpecial : Bool) (action : Act Nat) : Act Unit := do
  let speaker? := (← get).speaker?
  modify fun state => { state with speaker? := some name }
  let result ← attempt action
  match result with
  | .ok status =>
    let isWritten ← flush
    if !isWritten then warn 1 (name ++ ": I/O error".toList)
    finish (if isWritten then status else status ||| 1)
    modify fun state => { state with speaker? }
  | .error jump =>
    modify fun state => { state with speaker? }
    if jump = .failed && !isSpecial then pure () else throw jump

/-- Carries out an action, and then what is to be done at the end of its process, whatever jump the
action ends with. -/
def toEnd (action atEnd : Act Unit) : Act Unit := do
  for step in [action, atEnd] do
    match ← attempt step with
    | .error jump => if jump.isFatal then throw jump
    | .ok () => pure ()
  let _ ← flush
  modify fun state => { state with status := state.status % 256 }

/-- Carries out an action to its end in a copy of the shell. -/
def inCopy (state : State) (action atEnd : Act Unit) : Option Jump × State :=
  match toEnd action atEnd state.copied with
  | (.ok (), copy) => (none, copy)
  | (.error jump, copy) => (some jump, copy)

/-- A command that failed ends a script for which that counts, unless its status is looked at. -/
def judge (position : Position) : Act Unit := do
  let state ← get
  if state.status ≠ 0 && !position.isTested && state.isOn .errexit then throw .leave

/-- Dies of a signal that came for the script, if the script has no action for it. -/
def dieOfSignal : Act Unit := do
  let state ← get
  let isDeadly (signal : Nat) : Bool :=
    (isForced signal || (signal ∉ state.deaf && (state.traps.lookup signal).isNone)) &&
      reactionTo signal matches .dies
  let signals := (state.world.signals.filter (·.1 = state.process)).map (·.2)
  match (signals.filter isDeadly).min? with
  | some signal => if !state.isCopy then throw (.killed signal)
  | none => return

/-- How a copy of the shell, or a program, has ended: with its status, or by a signal. Another jump is
taken. -/
def endingOf (jump? : Option Jump) (copy : State) : Act ProcessEnd :=
  match jump? with
  | none => return .exited copy.status
  | some (.killed signal) => return .killed signal
  | some jump => throw jump

/-- The processes of a command that was waited for have ended. The status is that of the last one. -/
def settle (ends : List ProcessEnd) : Act Unit :=
  modify fun state =>
    { state.tell (ends.flatMap ProcessEnd.farewell) with
      jobs := state.jobs.afterForeground
      status := (ends.getLast?.map ProcessEnd.status).getD 0 }

/-- Complains about a script that cannot be read. -/
def refuse {α : Type} (line : Nat) (text : Text) : Act α := do
  modify fun state => { state with line }
  fail ("Syntax error: ".toList ++ text)

/-- The assignments in front of a command give the variables their values, for the command alone or
from now on. What has to be restored comes last first. -/
def assignFor (isTemporary : Bool) (name value : Text) (saved : List Saved) : Act (List Saved) := do
  let state ← get
  assign name value
  if isTemporary then
    modify fun state => state.withExported name true
    return state.save name :: saved
  else return saved

end Act

/-- How deep functions may call each other. -/
def depthLimit : Nat := 1000

/-- The bytes that a pipe holds before they are read. -/
def pipeCapacity : Nat := 65536

mutual

/-- Expands a part of a word, which may be the first and the last one. -/
def expandPart : Nat → Manner → Bool → Bool → Part → Act (List Piece)
  | 0, _, _, _, _ => throw .stuck
  | fuel + 1, manner, atStart, atEnd, part => do
    let state ← get
    match part with
    | .chars text quoted =>
      return if quoted then [.whole text true] else state.plainPieces manner atStart atEnd text
    | .parameter name use quoted =>
      let value? := parameter? state name
      let demand : Act Text := do
        if value?.isNone && state.isOn .nounset then
          Act.fail (name ++ ": parameter not set".toList)
        return value?.getD []
      match use with
      | .value => return state.valuePieces manner quoted name (← demand)
      | .length =>
        let length := Text.ofNat (← demand).length
        return if quoted then [.whole length true] else [.split length]
      | .marked mark word => expandMarked fuel manner quoted name mark word
      | .unknown => Act.fail "Bad substitution".toList
    | .sum written quoted =>
      let text ← expandText fuel {} written
      let state ← get
      match valueOfSum state.fixed state.values text with
      | .ok (value, values) =>
        set { state with values }
        let value := Text.ofInt value
        return if quoted then [.whole value true] else [.split value]
      | .error fault => Act.fail (fault.message text)
    | .output body quoted =>
      let text ← takeOutput fuel body
      return if quoted then [.whole text true] else [.split text]
termination_by structural fuel => fuel

/-- Expands a parameter with a mark and a word. -/
def expandMarked : Nat → Manner → Bool → Text → Text → Word → Act (List Piece)
  | 0, _, _, _, _, _ => throw .stuck
  | fuel + 1, manner, quoted, name, mark, word => do
    let state ← get
    let value? := parameter? state name
    let hasColon := mark.head? = some ':'
    -- With a colon in the mark an empty value counts as none.
    let filled? := if hasColon then value?.filter (· ≠ []) else value?
    let own := state.valuePieces manner quoted name (value?.getD [])
    let instead : Act (List Piece) := do
      return (← expandWord fuel manner true word).map Piece.loosened
    match mark.getLast? with
    | some '-' => if filled?.isSome then return own else instead
    | some '+' =>
      if filled?.isSome then instead else return []
    | some '=' =>
      if filled?.isSome then return own
      else
        let value ← expandText fuel {} word
        Act.checkName name
        Act.assign name value
        return if quoted then [.whole value true] else [.split value]
    | some '?' =>
      if filled?.isSome then return own
      else
        let reason ← expandText fuel {} word
        let usual : Text := "parameter not set"
        Act.fail (name ++ ": ".toList ++
          if word.length ≠ 0 then reason
          else if hasColon then usual ++ " or null".toList else usual)
    | some removal =>
      if value?.isNone && state.isOn .nounset then
        Act.fail (name ++ ": parameter not set".toList)
      let pattern := patternOf (← expandWord fuel {} true word)
      let cut := if removal = '%' then dropMatchingEnd else dropMatchingStart
      let isMany := manner.isSplit && (name = ['@'] || (name = ['*'] && !quoted))
      -- The arguments are cut as one text.
      let value := if isMany then Text.join ['\x00'] state.parameters.words else value?.getD []
      let value := cut (mark.length = 2) pattern value
      return if !quoted then [.split value]
        else if isMany then [.separate (Text.pieces value '\x00')]
        else [.whole value true]
    | none => return own
termination_by structural fuel => fuel

/-- Expands a word, or what is left of it. -/
def expandWord : Nat → Manner → Bool → Word → Act (List Piece)
  | 0, _, _, _ => throw .stuck
  | _ + 1, _, _, [] => return []
  | fuel + 1, manner, atStart, part :: word => do
    let first ← expandPart fuel manner atStart (word.length = 0) part
    let rest ← expandWord fuel manner false word
    return first ++ rest
termination_by structural fuel => fuel

/-- Expands a word to a text. -/
def expandText : Nat → Manner → Word → Act Text
  | 0, _, _ => throw .stuck
  | fuel + 1, manner, word => do
    return textOf (← expandWord fuel manner true word)
termination_by structural fuel => fuel

/-- Expands words to fields. -/
def expandFields : Nat → List Word → Act (List Text)
  | 0, _ => throw .stuck
  | _ + 1, [] => return []
  | fuel + 1, word :: words => do
    let first ← match plainField? word with
      | some field => pure [field]
      | none =>
        let pieces ← expandWord fuel { isSplit := true } true word
        pure (pathFields (← get) pieces)
    let rest ← expandFields fuel words
    return first ++ rest
termination_by structural fuel => fuel

/-- Expands the words of a command to fields, after those that are given. What comes first can be a
command whose arguments are assignments. -/
def expandCommand : Nat → List Text → List Word → Act (List Text)
  | 0, _, _ => throw .stuck
  | _ + 1, before, [] => return before
  | fuel + 1, before, word :: words => do
    let state ← get
    match assignment? word with
    | some (name, value) =>
      if (callOf state before).isAssigning state then
        let text ← expandText fuel { isValue := true } value
        expandCommand fuel (before ++ [name ++ '=' :: text]) words
      else
        let fields ← expandFields fuel [word]
        expandCommand fuel (before ++ fields) words
    | none =>
      let fields ← expandFields fuel [word]
      expandCommand fuel (before ++ fields) words
termination_by structural fuel => fuel

/-- Expands the words of redirections. -/
def expandOpenings : Nat → List Redirection → Act (List Opening)
  | 0, _ => throw .stuck
  | _ + 1, [] => return []
  | fuel + 1, redirection :: redirections => do
    let first ← match redirection with
      | .file number access name => pure (.file number access (← expandText fuel {} name))
      | .stream number other =>
        match ← expandText fuel {} other with
        | ['-'] => pure (.stream number none)
        | [digit] =>
          if Text.isAsciiDigit digit then pure (.stream number (some (digit.toNat - 48)))
          else Act.refuse (← get).sourceLine "Bad fd number".toList
        | _ => Act.refuse (← get).sourceLine "Bad fd number".toList
      | .document number document =>
        pure (.document number (((← get).documents.lookup document).getD []))
    return first :: (← expandOpenings fuel redirections)
termination_by structural fuel => fuel

/-- Carries out redirections. -/
def carryOut : Nat → List Opening → Act Unit
  | 0, _ => throw .stuck
  | _ + 1, [] => return
  | fuel + 1, opening :: openings => do
    match opening with
    | .file number access name => Act.redirectToFile number access name
    | .stream number other? => Act.redirectToStream number other?
    | .document number word => Act.redirectToText number (← expandText fuel {} word)
    carryOut fuel openings
termination_by structural fuel => fuel

/-- Carries out assignments, and gives what has to be restored. -/
def assignAll : Nat → Bool → List (Text × Word) → List Saved → Act (List Saved)
  | 0, _, _, _ => throw .stuck
  | _ + 1, _, [], saved => return saved
  | fuel + 1, isTemporary, (name, word) :: assignments, saved => do
    let value ← expandText fuel { isValue := true } word
    let saved ← Act.assignFor isTemporary name value saved
    assignAll fuel isTemporary assignments saved
termination_by structural fuel => fuel

/-- What commands print, without the line feeds at its end. -/
def takeOutput : Nat → List Command → Act Text
  | 0, _ => throw .stuck
  | fuel + 1, body => do
    let state ← get
    let (world, collection, stream) := state.world.addCollection
    let start := { state with world }.setStream 1 (some stream)
    let (jump?, copy) := Act.inCopy start (runList fuel { isLast := true } body) (finishScript fuel)
    set { state with world := copy.world }
    Act.dieOfSignal
    let ending ← Act.endingOf jump? copy
    if body.length ≠ 0 then Act.settle [ending]
    let status := state.status
    modify fun state => { state with status, outputStatus := ending.status }
    return dropFinalBreaks ((copy.world.collected collection).filter (· ≠ '\x00'))
termination_by structural fuel => fuel

/-- Does what is to be done at the end of a script. -/
def finishScript : Nat → Act Unit
  | 0 => throw .stuck
  | fuel + 1 => do
    let state ← get
    match state.traps.lookup 0 with
    | none => return
    | some action =>
      let traps := state.traps.filter fun trap => trap.1 ≠ 0
      set { state with traps, kept? := some state.status, loops := 0 }
      match ← Act.attempt (runText fuel {} action) with
      | .error jump => if jump.isFinal then throw jump else Act.finish state.status
      | .ok _ => Act.finish state.status
termination_by structural fuel => fuel

/-- Heeds the signals that came for the script. -/
def heed : Nat → Act Unit
  | 0 => throw .stuck
  | fuel + 1 => fun state =>
    let isOwn (item : Nat × Nat) : Bool := item.1 = state.process
    if state.isCopy || state.world.signals.isEmpty then (.ok (), state)
    else match (state.world.signals.filter isOwn).map (·.2) |>.min? with
      | none => (.ok (), state)
      | some signal =>
        let signals := state.world.signals.filter (· ≠ (state.process, signal))
        let state := { state with world := { state.world with signals } }
        heedSignal fuel signal state
termination_by structural fuel => fuel

/-- Heeds a signal, and then the others that came. -/
def heedSignal : Nat → Nat → Act Unit
  | 0, _ => throw .stuck
  | fuel + 1, signal => do
    let state ← get
    let action? := if isForced signal then none else state.traps.lookup signal
    let isUnheeded := signal ∈ state.deaf && !isForced signal
    match action?, if isUnheeded then .none else reactionTo signal with
    | some action, _ =>
      set { state with kept? := some (state.kept?.getD state.status) }
      let result ← Act.attempt (runText fuel {} action)
      modify fun after => { after with kept? := state.kept? }
      match result with
      | .ok _ =>
        Act.finish state.status
        heed fuel
      | .error jump =>
        if !jump.isFinal && jump ≠ .leaveFunction true then Act.finish state.status
        throw jump
    | none, .dies => throw (.killed signal)
    | none, .stops => throw .stuck
    | none, .none => heed fuel
termination_by structural fuel => fuel

/-- Runs the commands that a text writes, and says whether there are any. -/
def runText : Nat → Position → Text → Act Bool
  | 0, _, _ => throw .stuck
  | fuel + 1, position, text => do
    let line := (← get).sourceLine
    let hasRun ← runSource fuel position {} false { rest := text }
    modify fun state => { state with sourceLine := line }
    return hasRun
termination_by structural fuel => fuel

/-- Runs the lines of a source, and says whether any commands have been run. More lines than those of
the source can be supplied. -/
def runSource : Nat → Position → Supply → Bool → Source → Act Bool
  | 0, _, _, _, _ => throw .stuck
  | fuel + 1, position, supply, hasRun, source => fun state =>
    let isPrompting := supply.isScript && state.isOn .interactive
    let (_, state) := if isPrompting then showPrompt fuel "PS1" 1 state else (.ok (), state)
    let left := supply.left state.world
    let whole := source.rest ++ left
    let start :=
      { source with
        rest := whole, aliases := state.aliases, documents := state.documents
        nextDocument := state.nextDocument }
    -- Lines are shown when they are read, but only those that are not all there.
    let showing (text : Text) (state : State) : State :=
      if supply.stream?.isSome && state.isOn .verbose then state.tell text else state
    match start.readLine with
    | .error fault =>
      let lines := (Text.linesWithEnds whole).take (fault.line + 1 - source.line)
      let (_, state) :=
        if isPrompting then showPrompt fuel "PS2" (fault.line - source.line - 1) state
        else (.ok (), state)
      match Act.refuse fault.line fault.cause.message (showing lines.flatten state) with
      | (.error jump, state) => recover fuel supply jump state
      | done => done
    | .ok (commands?, after) =>
      let read := whole.take (whole.length - after.rest.length)
      let (_, state) :=
        if isPrompting then showPrompt fuel "PS2" (read.count '\n' - 1) state
        else (.ok (), state)
      let state := showing read state
      let (unread, world) := supply.read state.world (left.length - after.rest.length)
      let after := { after with rest := after.rest.take (after.rest.length - unread) }
      let state :=
        { state with
          world, documents := after.documents, nextDocument := after.nextDocument
          sourceLine := after.line }
      match commands? with
      | none =>
        let (_, state) :=
          if supply.isScript then leaveInput fuel isPrompting state else (.ok (), state)
        (.ok hasRun, state)
      | some commands =>
        match runList fuel position commands state with
        | (.ok (), state) =>
          runSource fuel position supply (hasRun || !commands.isEmpty) after state
        | (.error jump, state) => recover fuel supply jump state
termination_by structural fuel => fuel

/-- A shell that a person uses goes on after a command that failed. What it has read is lost, and no
script is so long that more is left. -/
def recover : Nat → Supply → Jump → Act Bool
  | 0, _, _ => throw .stuck
  | fuel + 1, supply, jump => do
    let state ← get
    if jump = .failed && supply.isScript && state.isOn .interactive then
      showPrompt fuel "PS1" 1
      leaveInput fuel true
      return true
    else throw jump
termination_by structural fuel => fuel

/-- Tells that a person has to do more than end the input to leave the shell, as often as that is
told, or ends the line of the prompt. -/
def leaveInput : Nat → Bool → Act Unit
  | 0, _ => throw .stuck
  | fuel + 1, isPrompting => do
    if (← get).isOn .ignoreeof then
      for _ in List.range 50 do
        modify fun state => state.tell "\nUse \"exit\" to leave shell.\n".toList
        if isPrompting then showPrompt fuel "PS1" 1
    else if isPrompting then modify fun state => state.tell ['\n']
termination_by structural fuel => fuel

/-- Shows a prompt some times. -/
def showPrompt : Nat → Text → Nat → Act Unit
  | 0, _, _ => throw .stuck
  | fuel + 1, name, count => do
    let text ← expandPrompt fuel name
    modify fun state => state.tell (List.replicate count text).flatten
termination_by structural fuel => fuel

/-- The text of a prompt. -/
def expandPrompt : Nat → Text → Act Text
  | 0, _ => throw .stuck
  | fuel + 1, name => do
    let mark := ((← get).valueOf? name).getD []
    let reading := Reading.takeParts (Reading.readNested fuel) fuel .document []
    let word := match reading.run { rest := mark } with
      | .ok (word, _) => word
      | .error _ => [.chars mark true]
    expandText fuel {} word
termination_by structural fuel => fuel

/-- Runs the commands of a file. -/
def runFile : Nat → List Text → Act Nat
  | 0, _ => throw .stuck
  | fuel + 1, arguments => do
    match ← Act.withoutOptions arguments with
    | [] => return 0
    | name :: _ =>
      let state ← get
      let path? :=
        if name.any (· = '/') then some name
        else (candidates state name).find? (isFileAt state)
      match path? with
      | none => Act.fail (name ++ ": not found".toList)
      | some path =>
        match state.openStream path .read with
        | .error fault => Act.fail (fault.message false path)
        | .ok (opened, stream) =>
          set { opened with speaker? := some path }
          let result ← Act.attempt (runSource fuel {} { stream? := some stream } false { rest := [] })
          modify fun after => { after with sourceLine := state.sourceLine }
          let status := (← get).status
          match result with
          | .ok hasRun => return if hasRun then status else 0
          | .error (.leaveFunction _) => return status
          | .error jump => throw jump
termination_by structural fuel => fuel

/-- Runs a list of commands. -/
def runList : Nat → Position → List Command → Act Unit
  | 0, _, _ => throw .stuck
  | _ + 1, _, [] => return
  | fuel + 1, position, command :: commands => fun state =>
    let place := if commands.isEmpty then position else position.inner
    match runCommand fuel place command state with
    | (.ok (), state) => runList fuel position commands state
    | (.error jump, state) => (.error jump, state)
termination_by structural fuel => fuel

/-- Runs a command, and heeds signals before and after it. -/
def runCommand : Nat → Position → Command → Act Unit
  | 0, _, _ => throw .stuck
  | fuel + 1, position, command => do
    if (← get).isOn .noexec then return
    heed fuel
    runHeeded fuel position command
    heed fuel
termination_by structural fuel => fuel

/-- Runs a command. -/
def runHeeded : Nat → Position → Command → Act Unit
  | 0, _, _ => throw .stuck
  | fuel + 1, position, command => do
    match command with
    | .simple line assignments words redirections =>
      match ← Act.attempt (runSimple fuel position line assignments words redirections) with
      | .ok () => Act.judge position
      | .error jump =>
        -- A function or a file that ends with a failure counts as a command that failed.
        if jump matches .leaveFunction _ then Act.judge position
        throw jump
    | .choose condition yes no =>
      runList fuel .tested condition
      if (← get).status = 0 then runList fuel position yes
      else if no.length = 0 then Act.finish 0
      else runList fuel position no
    | .loop onSuccess condition body =>
      let loops := (← get).loops
      modify fun state => { state with loops := loops + 1 }
      runLoop fuel position.inner onSuccess condition body 0
      modify fun state => { state with loops }
    | .each line name words? body =>
      modify fun state => { state with line }
      let state ← get
      let fields ← match words? with
        | none => pure state.parameters.words
        | some words => expandFields fuel words
      let loops := state.loops
      modify fun state => { state with loops := loops + 1 }
      runEach fuel position.inner name fields body 0
      modify fun state => { state with loops }
    | .select line subject items =>
      modify fun state => { state with line }
      runItems fuel position (← expandText fuel {} subject) items
    | .chain first onSuccess second =>
      runCommand fuel .tested first
      if ((← get).status = 0) = onSuccess then runCommand fuel position second
    | .pipe commands =>
      Act.settle (← runPipe fuel position none commands)
      Act.judge position
    | .define name body =>
      modify fun state =>
        { state with
          functions := (name, body) :: state.functions.filter fun item => item.1 ≠ name
          located := state.located.filter fun item => item.1 ≠ name
          status := 0 }
    | .negated command =>
      runCommand fuel .tested command
      modify fun state => state.withTruth (state.status ≠ 0)
    | .group body => runList fuel position body
    | .nested line body redirections =>
      modify fun state => { state with line }
      let openings ← expandOpenings fuel redirections
      let state ← get
      let action : Act Unit := do
        carryOut fuel openings
        runList fuel position.whole body
      let (jump?, copy) := Act.inCopy state action (finishScript fuel)
      set { state with world := copy.world }
      let ending ← Act.endingOf jump? copy
      match ending, position.isLast && !state.hasAction with
      -- The process is the one around it.
      | .killed signal, true => throw (.killed signal)
      | _, _ =>
        Act.settle [ending]
        Act.judge position
    | .redirected line command redirections =>
      modify fun state => { state with line }
      let openings ← expandOpenings fuel redirections
      let before ← get
      match ← Act.attempt (carryOut fuel openings) with
      | .ok () =>
        let result ← Act.attempt (runCommand fuel position.inner command)
        modify fun state => state.restoreStreams before redirections
        match result with
        | .ok () => return
        | .error jump => throw jump
      | .error jump =>
        modify fun state => state.restoreStreams before redirections
        if jump = .failed then Act.judge position else throw jump
    | .started command =>
      let commands := match command with
        | .pipe commands => commands
        | .redirected line command redirections => [.nested line [command] redirections]
        | _ => [command]
      let before ← get
      let (world, stream) := before.world.addStream ⟨.nothing, true, false⟩
      let process := world.nextProcess + commands.length - 1
      let world := { world with nextProcess := process + 1 }
      set ({ before with world, deaf := 2 :: 3 :: before.deaf }.setStream 0 (some stream))
      let result ← Act.attempt (runPipe fuel {} none commands)
      let after ← get
      set { before with
        -- A job that does not end has done nothing yet.
        world := match result with
          | .ok _ => after.world
          | .error _ => { world with endless := process :: world.endless }
        status := 0, lastJob? := some process
        jobs := before.jobs.add
          { process, size := commands.length, ends? := result.toOption } }
termination_by structural fuel => fuel

/-- Runs a command with its assignments and redirections. -/
def runSimple : Nat → Position → Nat → List (Text × Word) → List Word → List Redirection → Act Unit
  | 0, _, _, _, _, _ => throw .stuck
  | fuel + 1, position, line, assignments, words, redirections => do
    modify fun state => { state with line, outputStatus := 0 }
    let fields ← expandCommand fuel [] words
    let openings ← expandOpenings fuel redirections
    let before ← get
    let call := callOf before fields
    let isSpecial := call.isSpecial before
    match ← Act.attempt (carryOut fuel openings) with
    | .error jump =>
      modify fun state => state.restoreStreams before redirections
      if jump ≠ .failed || isSpecial then throw jump
    | .ok () =>
      let saved ← assignAll fuel (call.words ≠ [] && !isSpecial) assignments []
      if before.isOn .xtrace then
        showCommand fuel (before.streamOf? 2) (assignments.map (·.1)) fields
      let result ← Act.attempt (runCall fuel position call)
      -- Only `exec` keeps its redirections.
      let isKept := call.words.head? = some "exec".toList && (call.function? before).isNone &&
        result.toBool
      if !isKept then modify fun state => state.restoreStreams before redirections
      let finish (state : State) : State :=
        let state := saved.foldl State.restore state
        -- Along a search path of its own a program is not looked for again.
        let isOwnSearch := call.isProgram before && saved.any (·.isOf "PATH".toList)
        if isOwnSearch then { state with located := before.located } else state
      match result with
      | .ok () => modify finish
      | .error jump =>
        if !jump.isFinal then modify finish
        throw jump
termination_by structural fuel => fuel

/-- Shows a command before it runs, on the stream that errors had before its redirections. -/
def showCommand : Nat → Option Nat → List Text → List Text → Act Unit
  | 0, _, _, _ => throw .stuck
  | fuel + 1, stream?, names, fields => do
    let state ← get
    let mark ← expandPrompt fuel "PS4"
    let assigned := names.map fun name => name ++ '=' :: (state.valueOf? name).getD []
    let text := mark ++ Text.join [' '] (assigned ++ fields) ++ ['\n']
    modify fun state =>
      match stream? >>= fun stream => state.world.write? stream text with
      | some world => { state with world }
      | none => state
termination_by structural fuel => fuel

/-- Runs a command that is called. -/
def runCall : Nat → Position → Call → Act Unit
  | 0, _, _ => throw .stuck
  | fuel + 1, position, call => do
    let state ← get
    match call.words with
    | [] => Act.finish state.outputStatus
    | name :: arguments =>
      let part (action : Act Nat) : Act Unit :=
        Act.perform name (call.isSpecial state) action
      match call.function? state with
      | some body => runFunction fuel position body arguments
      | none =>
        match String.ofList name with
        | "eval" => part do
          let hasRun ← runText fuel position.inner (Text.join [' '] arguments)
          let state ← get
          return if hasRun then state.status else 0
        | "." => part (runFile fuel arguments)
        | "exec" => part do
          if arguments = [] then return 0
          Act.finish (← runProgram fuel true true false arguments)
          throw .leave
        | "command" => part do
          let (options, names) ← Act.takeOptions ['p', 'v', 'V'] [] arguments
          let letters := options.map (·.1)
          match letters.filter (· ≠ 'p'), names with
          | letter :: _, name :: _ =>
            Act.describe (letter = 'v') (letters.contains 'p') name
          | _, _ => return 0
        | _ =>
          match builtin? name arguments with
          | some action => part action
          | none =>
            if !call.isStandard then Act.locate name
            let isInPlace := position.isLast && !state.hasAction
            Act.finish (← runProgram fuel false isInPlace call.isStandard call.words)
termination_by structural fuel => fuel

/-- Runs a function. -/
def runFunction : Nat → Position → Command → List Text → Act Unit
  | 0, _, _, _ => throw .stuck
  | fuel + 1, position, body, arguments => do
    let before ← get
    if depthLimit ≤ before.depth then
      Act.fail ("Maximum function recursion depth (".toList ++ Text.ofNat depthLimit ++
        ") reached".toList)
    set { before with
      parameters := { words := arguments }, saved? := some [], loops := 0
      depth := before.depth + 1 }
    let result ← Act.attempt (runCommand fuel position.inner body)
    match result with
    | .error jump => if jump.isFinal then throw jump
    | .ok () => pure ()
    modify fun after =>
      { (after.saved?.getD []).foldl State.restore after with
        parameters := before.parameters, saved? := before.saved?, loops := before.loops
        depth := before.depth }
termination_by structural fuel => fuel

/-- Starts a program and gives its status. It may be started by `exec`, in place of the shell, and in
a search for programs of the system alone. -/
def runProgram : Nat → Bool → Bool → Bool → List Text → Act Nat
  | 0, _, _, _, _ => throw .stuck
  | _ + 1, _, _, _, [] => return 0
  | fuel + 1, isExec, isInPlace, isStandard, name :: arguments => do
    let state ← get
    match findProgram state isStandard name with
    | .faulty fault =>
      let isStarted := name.any (· = '/') || (whereIs? state name).isSome
      if isStarted && !isInPlace then
        modify fun state => { state with jobs := state.jobs.afterForeground }
      let status := if isExec || isStarted then fault.status else 127
      Act.warn status (fault.message name)
      return status
    | .shell shell before =>
      let given := state.exported.filterMap fun name =>
        (state.valueOf? name).map fun value => (name, value)
      let isSame := isInPlace && !state.isCopy
      let process := if isSame then state.process else state.world.nextProcess
      let parent := if isSame then state.parent else state.process
      let world := { state.world with nextProcess := state.world.nextProcess + 1 }
      -- A shell that is no script has the name that it was called by.
      let shell := if before = [] then name else shell
      let child := State.begin world shell given state.descriptors state.current process parent
      -- Signals that are not heeded are not heeded by the program either.
      let child :=
        { child with deaf := state.unheeded, mask := state.mask, limits := state.limits }
      let action := runShell fuel (before ++ arguments)
      let (result, child) := Act.toEnd action (finishScript fuel) child
      let world :=
        { child.world with living := child.world.living.erase process }
      -- What the shell was to do on signals is gone with it.
      set { state with world, traps := if isInPlace then [] else state.traps }
      let jump? := match result with
        | .ok () => none
        | .error jump => some jump
      match ← Act.endingOf jump? child, isInPlace with
      | .killed signal, true => throw (.killed signal)
      | ending, true => return ending.status
      | ending, false =>
        Act.settle [ending]
        return ending.status
termination_by structural fuel => fuel

/-- Runs a shell that has been started with some words. -/
def runShell : Nat → List Text → Act Unit
  | 0, _ => throw .stuck
  | fuel + 1, words => do
    -- Nothing has been read when the words are looked at.
    modify fun state => { state with line := 0 }
    match Launch.ofWords (← get).name words with
    | .error complaint => Act.fail complaint
    | .ok launch =>
      modify fun state =>
        { state with on := launch.on, parameters := { words := launch.words } }
      let state ← get
      let (supply, source) : Supply × Source ← match launch.source with
        | .text commands => pure ({}, { rest := commands })
        | .input => pure ({ stream? := state.streamOf? 0, isScript := true }, { rest := [] })
        | .file path =>
          match state.openStream path .read with
          | .error fault => Act.fail (fault.message false path)
          | .ok (opened, stream) =>
            set opened
            pure ({ stream? := some stream, isScript := true }, { rest := [] })
      modify fun state => { state with name := launch.name }
      Act.checkMonitor
      modify fun state => { state with line := 1 }
      let _ ← runSource fuel { isLast := launch.source matches .text _ } supply false source
termination_by structural fuel => fuel

/-- Runs commands of which each reads what the one before printed, and tells how they ended. -/
def runPipe : Nat → Position → Option Nat → List Command → Act (List ProcessEnd)
  | 0, _, _, _ => throw .stuck
  | _ + 1, _, _, [] => return []
  | fuel + 1, position, input?, command :: commands => do
    match programName? command with
    | some name => Act.locate name
    | none => pure ()
    let state ← get
    let start := match input? with
      | some stream => state.setStream 0 (some stream)
      | none => state
    let (world, collection, stream) := state.world.addCollection
    let isLast := commands.length = 0
    let start := if isLast then start else { start with world }.setStream 1 (some stream)
    let (jump?, copy) :=
      Act.inCopy start (runCommand fuel position.whole command) (finishScript fuel)
    set { state with world := copy.world }
    let text := if isLast then [] else copy.world.collected collection
    -- A command that prints without end is ended when nobody reads it any more.
    let isCutOff := !isLast && jump? = some .stuck && pipeCapacity ≤ text.length
    let ending ← if isCutOff then pure (.killed 13) else Act.endingOf jump? copy
    if isLast then return [ending]
    else
      let (world, input) := copy.world.addText text
      modify fun state => { state with world }
      return ending :: (← runPipe fuel position (some input) commands)
termination_by structural fuel => fuel

/-- Runs a loop, where `last` is the status of the last round. -/
def runLoop : Nat → Position → Bool → List Command → List Command → Nat → Act Unit
  | 0, _, _, _, _, _ => throw .stuck
  | fuel + 1, position, onSuccess, condition, body, last => fun state =>
    match runList fuel .tested condition state with
    | (.ok (), state) =>
      if (state.status = 0) = onSuccess then
        match runList fuel position body state with
        | (.ok (), state) => runLoop fuel position onSuccess condition body state.status state
        | (.error jump, state) =>
          match jump.round with
          | .again => runLoop fuel position onSuccess condition body state.status state
          | .over none => (.ok (), state)
          | .over (some jump) => (.error jump, state)
      else (.ok (), { state with status := last })
    | (.error jump, state) =>
      match jump.round with
      | .again => runLoop fuel position onSuccess condition body last state
      | .over none => (.ok (), { state with status := last })
      | .over (some jump) => (.error jump, state)
termination_by structural fuel => fuel

/-- Runs a list of commands for each of some fields, where `last` is the status of the last round.
-/
def runEach : Nat → Position → Text → List Text → List Command → Nat → Act Unit
  | 0, _, _, _, _, _ => throw .stuck
  | _ + 1, _, _, [], _, last => Act.finish last
  | fuel + 1, position, name, field :: fields, body, _ => fun state =>
    let round : Act Unit := do
      Act.assign name field
      runList fuel position body
    match round state with
    | (.ok (), state) => runEach fuel position name fields body state.status state
    | (.error jump, state) =>
      match jump.round with
      | .again => runEach fuel position name fields body state.status state
      | .over none => (.ok (), state)
      | .over (some jump) => (.error jump, state)
termination_by structural fuel => fuel

/-- Runs the list of the first pattern that matches a subject. -/
def runItems : Nat → Position → Text → List (List Word × List Command) → Act Unit
  | 0, _, _, _ => throw .stuck
  | _ + 1, _, _, [] => Act.finish 0
  | fuel + 1, position, subject, (patterns, body) :: items => do
    if ← anyMatches fuel subject patterns then
      if body.length = 0 then Act.finish 0 else runList fuel position body
    else runItems fuel position subject items
termination_by structural fuel => fuel

/-- One of some patterns matches a subject. -/
def anyMatches : Nat → Text → List Word → Act Bool
  | 0, _, _ => throw .stuck
  | _ + 1, _, [] => return false
  | fuel + 1, subject, pattern :: patterns => do
    let pieces ← expandWord fuel {} true pattern
    if patternMatches (patternOf pieces) subject then return true
    else anyMatches fuel subject patterns
termination_by structural fuel => fuel

end

/-- How a program ended. -/
inductive Ending where
  /-- With an exit code. -/
  | exited (code : Nat)
  /-- By a signal. -/
  | killed
  /-- Not at all. -/
  | unending
deriving DecidableEq, Repr, Inhabited

/-- How many steps may be nested in each other before a script counts as unending. -/
def patience : Nat := 500000

/-- What can be seen of a script that has run. Its texts are bytes, each as the character with its
value. -/
structure Outcome where
  /-- How it ended. -/
  ending : Ending
  /-- What it printed. -/
  output : Text
  /-- What it complained about. -/
  errors : Text
  /-- The file tree that it leaves. -/
  tree : FileTree

/-- Runs a shell that is started with some words in a directory, with variables. -/
def run (tree : FileTree) (current : Location) (given : Variables) (shell : Text)
    (words : List Text) : Outcome :=
  let (world, input) := ({ tree } : World).addStream ⟨.nothing, true, false⟩
  let (world, collection, output) := world.addCollection
  let (world, complaints, errors) := world.addCollection
  let process := world.nextProcess
  let world := { world with nextProcess := process + 1 }
  let state := State.begin world shell given [(0, input), (1, output), (2, errors)] current
    process 1
  let (result, state) := Act.toEnd (runShell patience words) (finishScript patience) state
  let ending := match result with
    | .ok () => if state.world.endless = [] then .exited state.status else .unending
    | .error (.killed _) => .killed
    | .error _ => .unending
  ⟨ending, state.world.collected collection, state.world.collected complaints, state.world.tree⟩

end Shell

end EngineUpkeep
