import EngineUpkeep.Toml.Basic

/-!
# Trees of tables

While a document is read, a tree remembers of each table how it came to be, since that decides what
may still be added. A table that only the path of a header or of a dotted name made is implicit: a
header may define it once. A table that dotted names made is open to further dotted names only. A
value, an inline table and a static array are closed.
-/

namespace EngineUpkeep

namespace Toml

/-- A node of the tree. -/
inductive Node where
  /-- A value that nothing can be added to. -/
  | closed (value : Toml)
  /-- A table. -/
  | table (implicit dotted : Bool) (entries : List (Text × Node))
  /-- An array of tables, the one at the end first. -/
  | tables (items : List Node)
deriving Inhabited

namespace Node

/-- The table of a document before its first line. -/
def root : Node := .table false false []

/-- The entries with one of them replaced. -/
def replace (name : Text) (node : Node) (entries : List (Text × Node)) : List (Text × Node) :=
  entries.map fun entry => if entry.1 = name then (name, node) else entry

/-- Changes the table at the end of a path. Tables that are missing on the way are made, as dotted
ones if the path is a dotted name. A dotted name enters no table that was defined by a header. -/
def changeAt (byDots : Bool) (change : Node → Option Node) : List Text → Node → Option Node
  | [], node => change node
  | name :: path, .table implicit dotted entries =>
    match entries.lookup name with
    | none => do
      let inner ← changeAt byDots change path (.table true byDots [])
      some (.table implicit dotted (entries ++ [(name, inner)]))
    | some (.table innerImplicit innerDotted inner) => do
      -- A header has defined the table.
      if byDots && !innerImplicit then none
      let changed ← changeAt byDots change path (.table innerImplicit innerDotted inner)
      some (.table implicit dotted (replace name changed entries))
    | some (.tables (last :: others)) => do
      let changed ← changeAt byDots change path last
      some (.table implicit dotted (replace name (.tables (changed :: others)) entries))
    | some _ => none
  | _ :: _, _ => none

/-- Adds an entry to a table, under a plain name or the last part of a dotted one. -/
def addEntry (byDots : Bool) (name : Text) (node : Node) : Node → Option Node
  | .table implicit dotted entries =>
    if dotted ≠ byDots || (entries.lookup name).isSome then none
    else some (.table implicit dotted (entries ++ [(name, node)]))
  | _ => none

/-- Adds a value under a dotted name. -/
def insert (path : List Text) (value : Toml) (node : Node) : Option Node :=
  match path.reverse with
  | [] => none
  | name :: above => changeAt true (addEntry (above ≠ []) name (.closed value)) above.reverse node

/-- Defines a table by its header. -/
def define (path : List Text) (node : Node) : Option Node :=
  match path.reverse with
  | [] => none
  | name :: above =>
    changeAt false (fun
      | .table implicit dotted entries =>
        match entries.lookup name with
        | none => some (.table implicit dotted (entries ++ [(name, .table false false [])]))
        -- So far only longer headers have spoken of this table.
        | some (.table true false inner) =>
          some (.table implicit dotted (replace name (.table false false inner) entries))
        | some _ => none
      | _ => none) above.reverse node

/-- Adds a table to an array of tables by its header. -/
def append (path : List Text) (node : Node) : Option Node :=
  match path.reverse with
  | [] => none
  | name :: above =>
    changeAt false (fun
      | .table implicit dotted entries =>
        match entries.lookup name with
        | none =>
          some (.table implicit dotted (entries ++ [(name, .tables [.table false false []])]))
        | some (.tables items) =>
          some (.table implicit dotted
            (replace name (.tables (.table false false [] :: items)) entries))
        | some _ => none
      | _ => none) above.reverse node

mutual

/-- The value that a node stands for. -/
def toToml : Node → Toml
  | .closed value => value
  | .table _ _ entries => .table (entriesToToml entries)
  | .tables items => .array (itemsToToml items).reverse

/-- The values of the entries of a table. -/
def entriesToToml : List (Text × Node) → List (Text × Toml)
  | [] => []
  | entry :: entries => entryToToml entry :: entriesToToml entries

/-- The value of an entry of a table. -/
def entryToToml : Text × Node → Text × Toml
  | (name, node) => (name, toToml node)

/-- The values of the items of an array. -/
def itemsToToml : List Node → List Toml
  | [] => []
  | item :: items => toToml item :: itemsToToml items

end

end Node

end Toml

end EngineUpkeep
