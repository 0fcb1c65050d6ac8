import EngineUpkeep.Text.Basic

/-!
# Limits of resources

A limit has a soft value, which counts, and a hard one up to which the soft one can be raised. The
hard value can only be lowered. Values are words of 64 bits, of which the greatest one stands for no
limit at all; they are told in units of the resource.
-/

namespace EngineUpkeep

namespace Shell

/-- A resource that can be limited. -/
structure Resource where
  /-- Its letter. -/
  letter : Char
  /-- Its name. -/
  name : String
  /-- The size of its unit. -/
  unit : Nat
  /-- The soft value at first. -/
  usual : Nat := Text.wordLimit - 1

/-- All resources. -/
def resources : List Resource :=
  [{ letter := 't', name := "time(seconds)", unit := 1 },
    { letter := 'f', name := "file(blocks)", unit := 512 },
    { letter := 'd', name := "data(kbytes)", unit := 1024 },
    { letter := 's', name := "stack(kbytes)", unit := 1024, usual := 8388608 },
    { letter := 'c', name := "coredump(blocks)", unit := 512, usual := 0 },
    { letter := 'm', name := "memory(kbytes)", unit := 1024 },
    { letter := 'l', name := "locked memory(kbytes)", unit := 1024 },
    { letter := 'p', name := "process", unit := 1 },
    { letter := 'n', name := "nofiles", unit := 1 },
    { letter := 'v', name := "vmemory(kbytes)", unit := 1024 },
    { letter := 'w', name := "locks", unit := 1 },
    { letter := 'r', name := "rtprio", unit := 1, usual := 0 }]

/-- The soft and the hard value of a limit. -/
structure Limit where
  /-- The value that counts. -/
  soft : Nat
  /-- The greatest soft value. -/
  hard : Nat
deriving DecidableEq, Repr

namespace Limit

/-- The value that stands for no limit. -/
def none : Nat := Text.wordLimit - 1

/-- The limit of a resource at first. -/
def first (resource : Resource) : Limit :=
  ⟨resource.usual, none⟩

/-- A value of a resource as a text. -/
def valueText (resource : Resource) (value : Nat) : Text :=
  if value = none then "unlimited" else Text.ofNat (value / resource.unit)

/-- The value that a text writes. -/
def value? (resource : Resource) (text : Text) : Option Nat :=
  if text = "unlimited".toList then some none
  else if text.all Text.isAsciiDigit then
    some (Text.asciiValue text * resource.unit % Text.wordLimit)
  else Option.none

/-- The limit after one or both of its values have been set, or why they cannot be. -/
def changed (limit : Limit) (isSoft isHard : Bool) (value : Nat) : Except Text Limit :=
  let new : Limit := ⟨if isSoft then value else limit.soft, if isHard then value else limit.hard⟩
  let fault (reason : String) : Except Text Limit :=
    .error ("error setting limit (".toList ++ reason.toList ++ [')'])
  if new.hard < new.soft then fault "Invalid argument"
  else if limit.hard < new.hard then fault "Operation not permitted"
  else .ok new

end Limit

end Shell

end EngineUpkeep
