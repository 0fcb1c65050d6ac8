import EngineUpkeep.Shell.State

/-!
# Redirections

What redirections do to the numbers of streams once their words have been expanded. They are carried
out one after the other, and one that fails leaves those before it in force.
-/

namespace EngineUpkeep

namespace Shell

namespace Access

/-- What is opened can be read. -/
def reads : Access → Bool
  | read => true
  | readWrite => true
  | _ => false

/-- What is opened can be written. -/
def writes : Access → Bool
  | read => false
  | _ => true

end Access

/-- The devices. None gives anything that could be foreseen. -/
def devices : List Text :=
  ["/dev/null", "/dev/zero", "/dev/full", "/dev/random", "/dev/urandom", "/dev/tty"]

/-- The number of a stream that can be opened by the name of a file. -/
def namedStream? (name : Text) : Option Nat :=
  if name = "/dev/stdin".toList then some 0
  else if name = "/dev/stdout".toList then some 1
  else if name = "/dev/stderr".toList then some 2
  else
    let front : Text := "/dev/fd/"
    let digits := name.drop front.length
    if front.isPrefixOf name && digits ≠ [] && digits.all Text.isAsciiDigit then
      some (Text.asciiValue digits)
    else none

namespace State

/-- Opens a file. The number of its stream comes with the state. -/
def openStream (state : State) (name : Text) (access : Access) : Except OpenFault (State × Nat) :=
  let opened (world : World) (channel : Channel) : Except OpenFault (State × Nat) :=
    let (world, stream) := world.addStream ⟨channel, access.reads, access.writes⟩
    .ok ({ state with world }, stream)
  let openAt (current : Location) (path : Path) : Except OpenFault (State × Nat) := do
    let (world, channel) ← state.world.openFile current path access (state.isOn .noclobber)
    opened world channel
  if name = "/dev/tty".toList then .error .noTerminal
  else if name = "/dev/full".toList then opened state.world .full
  else if devices.contains name then opened state.world .nothing
  else match namedStream? name with
    | none => openAt state.current (pathNamed name)
    | some number =>
      match state.streamOf? number with
      | none => .error .missing
      | some stream =>
        match state.world.streams[stream]? with
        -- A file is opened once more, from its beginning.
        | some ⟨.file location _ _, _, _⟩ => openAt [] (FileTree.pathOf location)
        | some ⟨.nothing, _, _⟩ => opened state.world .nothing
        | _ => .ok (state, stream)

end State

namespace Act

/-- A number leads to a file. -/
def redirectToFile (number : Nat) (access : Access) (name : Text) : Act Unit := do
  let state ← get
  match state.openStream name access with
  | .ok (state, stream) => set (state.setStream number (some stream))
  | .error fault => fail (fault.message access.writes name)

/-- A number leads to where another one leads, or is closed. -/
def redirectToStream (number : Nat) (other? : Option Nat) : Act Unit := do
  let state ← get
  match other? with
  | none => set (state.setStream number none)
  | some other =>
    match state.streamOf? other with
    | some stream => set (state.setStream number (some stream))
    | none =>
      if number ≠ other then fail (Text.ofNat other ++ ": Bad file descriptor".toList)

/-- A number leads to a text that can be read. -/
def redirectToText (number : Nat) (text : Text) : Act Unit :=
  modify fun state =>
    let (world, stream) := state.world.addText text
    { state with world }.setStream number (some stream)

end Act

end Shell

end EngineUpkeep
