import EngineUpkeep.Text.Basic

/-!
# The order of listings

A shell keeps aliases, and the places of the programs that it has found, in tables with a fixed
number of rows. The characters of a name decide its row, and a listing goes row by row, so that it
is neither sorted nor in the order in which the names came.
-/

namespace EngineUpkeep

namespace Shell

/-- The row of a name in a table with so many rows. -/
def rowOf (rows : Nat) (name : Text) : Nat :=
  (16 * (name.headD '\x00').toNat + name.foldl (fun total c => total + c.toNat) 0) % rows

/-- The items of such a table in the order of a listing. In one row they stand as they came. -/
def listed {α : Type} (rows : Nat) (nameOf : α → Text) (items : List α) : List α :=
  (List.range rows).flatMap fun row => items.filter fun item => rowOf rows (nameOf item) = row

/-- The number of rows of the table of aliases. -/
def aliasRows : Nat := 39

/-- The number of rows of the table of programs. -/
def programRows : Nat := 31

/-- A list of named items in which one has the place of another with its name, or the last place. -/
def withItem {α : Type} (name : Text) (value : α) : List (Text × α) → List (Text × α)
  | [] => [(name, value)]
  | item :: items =>
    if item.1 = name then (name, value) :: items else item :: withItem name value items

end Shell

end EngineUpkeep
