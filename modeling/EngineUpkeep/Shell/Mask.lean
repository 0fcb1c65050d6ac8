import EngineUpkeep.Text.Basic

/-!
# Masks of rights

A mask says which rights new files do not get. It has nine bits, three for each class of users: the
owner, the group and all others. A mask is written with octal digits or, as the rights that it
leaves, with letters: classes, a sign and rights, such as `u=rw,go-w`.
-/

namespace EngineUpkeep

namespace Shell

namespace Mask

/-- All rights. -/
def full : Nat := 0o777

/-- The number in octal digits, four of them at least. -/
def octalText (number : Nat) : Text :=
  let digits := Nat.toDigits 8 number
  List.replicate (4 - digits.length) '0' ++ digits

/-- The letters of the rights that a mask leaves to the class at a bit. -/
def lettersOf (mask shift : Nat) : Text :=
  [(4, 'r'), (2, 'w'), (1, 'x')].filterMap fun (bit, letter) =>
    if (mask >>> shift) / bit % 2 = 0 then some letter else none

/-- The rights that a mask leaves, in letters. -/
def lettersText (mask : Nat) : Text :=
  "u=".toList ++ lettersOf mask 6 ++ ",g=".toList ++ lettersOf mask 3 ++ ",o=".toList ++
    lettersOf mask 0

/-- The classes that a letter names, with the bit of the last right of each. -/
def classesOf : Char → Nat
  | 'u' => 0o100
  | 'g' => 0o010
  | 'o' => 0o001
  | _ => 0o111

/-- The rights that a letter names, as three bits, where all classes have some rights already. The
letter of a class names the rights of the class, and a capital says that somebody can run the file.
-/
def rightsOf (rights : Nat) : Char → Nat
  | 'r' => 4
  | 'w' => 2
  | 'x' => 1
  | 'u' => rights >>> 6
  | 'g' => rights >>> 3
  | 'o' => rights
  | 'X' => if rights &&& 0o111 = 0 then 0 else 1
  | _ => 0

/-- The rights after some are taken away. -/
def without (rights taken : Nat) : Nat :=
  rights - (rights &&& taken)

/-- The rights after changes that letters write, where `given` were there in the beginning and
`classes` are those named before the sign. Each step takes a sign. -/
def changeUpTo (given : Nat) : Nat → Nat → Nat → Text → Option Nat
  | 0, _, rights, _ => some rights
  | fuel + 1, classes, rights, text =>
    let named := text.takeWhile ['a', 'u', 'g', 'o'].contains
    let classes := named.foldl (fun all letter => all ||| classesOf letter) classes
    let classes := if classes = 0 then 0o111 else classes
    match text.drop named.length with
    | [] => some rights
    | sign :: text =>
      let letters := text.takeWhile ['r', 'w', 'x', 'u', 'g', 'o', 'X', 's'].contains
      let bits := letters.foldl (fun all letter => all ||| rightsOf given letter) 0 % 8
      let bits := bits * classes
      let changed? : Option Nat :=
        match sign with
        | '=' => some (without rights (7 * classes) ||| bits)
        | '+' => some (rights ||| bits)
        | '-' => some (without rights bits)
        | _ => none
      match changed?, text.drop letters.length with
      | none, _ => none
      | some rights, [] => some rights
      | some rights, ',' :: text => changeUpTo given fuel 0 rights text
      | some rights, c :: text =>
        if ['=', '+', '-'].contains c then changeUpTo given fuel classes rights (c :: text)
        else none

/-- The mask after a change that letters write; nothing if they write none. -/
def changed? (mask : Nat) (text : Text) : Option Nat :=
  let given := full - mask
  (changeUpTo given (text.length + 1) 0 given text).map fun rights => full - rights

/-- The mask that octal digits write; nothing if they write none. -/
def ofDigits? (text : Text) : Option Nat :=
  if text.all fun c => '0' ≤ c && c ≤ '7' then
    some (text.foldl (fun (value : Nat) c => 8 * value + (c.toNat - 48)) 0 % 0o1000)
  else none

end Mask

end Shell

end EngineUpkeep
