import EngineUpkeep.Shell.State

/-!
# Arguments of commands

How the commands that are part of the shell take numbers and options from their arguments. What they
cannot take they complain about, and fail.
-/

namespace EngineUpkeep

namespace Shell

/-- The number that an argument writes, if it is not negative and has no more than 31 bits. -/
def toCount? (text : Text) : Option Nat :=
  match toDecimal? text with
  | some (.ofNat n) => if n < 0x80000000 then some n else none
  | _ => none

namespace Act

/-- Complains about an argument that is no number. -/
def illegalNumber {α : Type} (text : Text) : Act α :=
  fail ("Illegal number: ".toList ++ text)

/-- The number that an argument writes. -/
def count (text : Text) : Act Nat := do
  match toCount? text with
  | some number => return number
  | none => illegalNumber text

/-- The number of the first argument, or another one if there is none. -/
def countOr (default : Nat) : List Text → Act Nat
  | [] => return default
  | text :: _ => count text

/-- The options that letters in one argument write: some stand alone, others have a value, which is
the rest of the argument. The letter whose value is not there comes last. -/
def letterOptions (alone valued : Text) : Text → Act (List (Char × Text) × Option Char)
  | [] => return ([], none)
  | c :: rest => do
    if c ∈ alone then
      let (options, lacking?) ← letterOptions alone valued rest
      return ((c, []) :: options, lacking?)
    else if c ∉ valued then fail ("Illegal option -".toList ++ [c])
    else return if rest = [] then ([], some c) else ([(c, rest)], none)

/-- Takes the options at the front of arguments, and gives what comes after them. -/
def takeOptions (alone valued : Text) : List Text → Act (List (Char × Text) × List Text)
  | [] => return ([], [])
  | word :: rest =>
    match word with
    | ['-', '-'] => return ([], rest)
    | '-' :: c :: letters => do
      let (options, lacking?) ← letterOptions alone valued (c :: letters)
      match lacking?, rest with
      | none, rest =>
        let (more, words) ← takeOptions alone valued rest
        return (options ++ more, words)
      | some letter, value :: rest =>
        let (more, words) ← takeOptions alone valued rest
        return (options ++ (letter, value) :: more, words)
      | some letter, [] => fail ("No arg for -".toList ++ letter :: " option".toList)
    | _ => return ([], word :: rest)

/-- Goes on with the arguments after a mark for the end of options. No option is known. -/
def withoutOptions (words : List Text) : Act (List Text) := do
  return (← takeOptions [] [] words).2

end Act

end Shell

end EngineUpkeep
