import EngineUpkeep.Path
import EngineUpkeep.Text.Utf8

/-!
# File trees

A file tree is observed by what stands at each location (`entryAt?`) and by which of its directories
are sealed (`isSealed`). Two trees are the same for the library when they agree in both. `put`,
`erase`, `relocate` and `withoutSeal` are the only changes, and each is described by what it does to
`entryAt?` and `isSealed`.

A sealed directory is one that the program may not change: no entry can be made in it, taken out of
it or put in the place of one in it. What a file in it holds can be changed all the same. Further
permissions are left out: every directory can be searched, and every file can be read and written.
A file tree is simpler than a file system in these respects too:

* It is one volume, so nothing but a seal keeps apart what has the kinds to be renamed.
* An entry has one name. Two locations are two files, even if they hold the same.
* Nobody else changes it, and there is room for whatever is written.
-/

namespace EngineUpkeep

/-- Where an entry stands: the names from the root directory down to it. -/
abbrev Location := List Text

/-- What a file holds. -/
inductive Content where
  /-- Bytes that are UTF-8, as text. -/
  | text (chars : Text)
  /-- Bytes that are not UTF-8. -/
  | binary (bytes : List UInt8)
deriving DecidableEq, Repr, Inhabited

/-- The bytes of a file. -/
def Content.bytes : Content → List UInt8
  | .text chars => Utf8.encode chars
  | .binary bytes => bytes

/-- The content that some bytes make. -/
def Content.ofBytes (bytes : List UInt8) : Content :=
  match Utf8.decode? bytes with
  | some chars => .text chars
  | none => .binary bytes

/-- What can stand at a location. -/
inductive Entry where
  /-- A directory. What it holds stands at longer locations. -/
  | directory
  /-- A regular file. A runnable one may be started as a program. -/
  | file (content : Content) (runnable : Bool)
  /-- A symbolic link with the path it points to. -/
  | link (target : Path)
deriving DecidableEq, Repr, Inhabited

/-- A file tree: the entries below the root directory, at most one for each location that counts.
The first entry of a location is the one that counts. -/
structure FileTree where
  /-- The entries with their locations. -/
  entries : List (Location × Entry)
  /-- Where directories are sealed. A location at which no directory stands does not count. -/
  sealed : List Location := []
deriving Repr, Inhabited

/-- Why an operation on files does not succeed. -/
inductive Fault where
  /-- Something that the path names is not there. -/
  | missing
  /-- The file is there, but it is not UTF-8. -/
  | notText
  /-- The operation does not go with what is there. -/
  | refused
deriving DecidableEq, Repr, Inhabited

/-- Results can be compared. -/
instance instDecidableEqExcept {ε α : Type} [DecidableEq ε] [DecidableEq α] :
    DecidableEq (Except ε α)
  | .ok value, .ok value' => decidable_of_iff (value = value') (by simp)
  | .error error, .error error' => decidable_of_iff (error = error') (by simp)
  | .ok _, .error _ => .isFalse (by simp)
  | .error _, .ok _ => .isFalse (by simp)

namespace FileTree

/-- The tree with nothing below the root directory. -/
def empty : FileTree where
  entries := []

/-- What stands at a location. The root directory always stands at the empty one. -/
def entryAt? (tree : FileTree) (location : Location) : Option Entry :=
  if location = [] then some .directory
  else (tree.entries.find? fun item => item.1 = location).map (·.2)

/-- A directory stands at a location, and it is sealed. -/
def isSealed (tree : FileTree) (location : Location) : Bool :=
  tree.entryAt? location = some .directory && location ∈ tree.sealed

/-- The tree with nothing at a location. -/
def erase (tree : FileTree) (location : Location) : FileTree :=
  { tree with entries := tree.entries.filter fun item => item.1 ≠ location }

/-- The tree with an entry at a location in place of what stood there. -/
def put (tree : FileTree) (location : Location) (entry : Entry) : FileTree :=
  { tree with entries := (location, entry) :: (tree.erase location).entries }

/-- The tree without a seal at a location. -/
def withoutSeal (tree : FileTree) (location : Location) : FileTree :=
  { tree with sealed := tree.sealed.filter (· ≠ location) }

/-- Where a location is to be found once `source` has become `target`, if it is still there. -/
def relocated? (source target location : Location) : Option Location :=
  if source.isPrefixOf location then some (target ++ location.drop source.length)
  else if target.isPrefixOf location then none
  else some location

/-- The tree with all that stands at `source` and below it moved to `target`. What stood at
`target` and below it is gone. Directories stay sealed or not. -/
def relocate (tree : FileTree) (source target : Location) : FileTree where
  entries := tree.entries.filterMap fun (location, entry) =>
    (relocated? source target location).map (·, entry)
  sealed := tree.sealed.filterMap (relocated? source target)

/-- Something stands directly or further below a location. -/
def hasBelow (tree : FileTree) (location : Location) : Bool :=
  tree.entries.any fun item => location.isPrefixOf item.1 && item.1 ≠ location

/-- The names of what stands directly below a location. -/
def namesIn (tree : FileTree) (location : Location) : List Text :=
  tree.entries.filterMap fun item =>
    if item.1.dropLast = location then item.1.getLast? else none

/-- The tree with a directory at a location and at every location above it that is vacant. -/
def withDirectory (tree : FileTree) (location : Location) : FileTree :=
  (List.range (location.length + 1)).foldl (fun tree depth =>
    let above := location.take depth
    if (tree.entryAt? above).isSome then tree else tree.put above .directory) tree

/-- The tree with an entry at a location and directories above it. -/
def withEntry (tree : FileTree) (location : Location) (entry : Entry) : FileTree :=
  (tree.withDirectory location.dropLast).put location entry

@[simp]
theorem entryAt?_nil (tree : FileTree) : tree.entryAt? [] = some .directory := by
  simp [entryAt?]

/-- Erasing changes nothing elsewhere. -/
theorem entryAt?_erase (tree : FileTree) (location other : Location) (hne : location ≠ []) :
    (tree.erase location).entryAt? other =
      if other = location then none else tree.entryAt? other := by
  by_cases hnil : other = []
  · subst hnil
    simp [Ne.symm hne]
  · by_cases h : other = location
    · subst h
      simp [entryAt?, hnil, erase]
    · simp only [entryAt?, hnil, erase, h, if_false]
      congr 1
      induction tree.entries with
      | nil => rfl
      | cons item rest ih =>
        by_cases hitem : item.1 = location
        · have : ¬ item.1 = other := fun heq => h (heq ▸ hitem)
          simp_all
        · by_cases hother : item.1 = other <;>
            simp_all

/-- Putting an entry changes nothing elsewhere. -/
theorem entryAt?_put (tree : FileTree) (location other : Location) (entry : Entry)
    (hne : location ≠ []) :
    (tree.put location entry).entryAt? other =
      if other = location then some entry else tree.entryAt? other := by
  by_cases h : other = location
  · subst h
    simp [entryAt?, put, hne]
  · have herase := tree.entryAt?_erase location other hne
    by_cases hnil : other = []
    · subst hnil
      simp [Ne.symm hne]
    · simp only [entryAt?, hnil, if_false, h] at herase ⊢
      rw [← herase]
      have hflip : ¬ location = other := fun heq => h heq.symm
      simp [put, hflip]

@[simp]
theorem entryAt?_withoutSeal (tree : FileTree) (location : Location) :
    (tree.withoutSeal location).entryAt? = tree.entryAt? :=
  rfl

@[simp]
theorem sealed_erase (tree : FileTree) (location : Location) :
    (tree.erase location).sealed = tree.sealed :=
  rfl

@[simp]
theorem sealed_put (tree : FileTree) (location : Location) (entry : Entry) :
    (tree.put location entry).sealed = tree.sealed :=
  rfl

theorem isSealed_iff {tree : FileTree} {location : Location} :
    tree.isSealed location = true ↔
      tree.entryAt? location = some .directory ∧ location ∈ tree.sealed := by
  rw [isSealed, Bool.and_eq_true, decide_eq_true_eq, decide_eq_true_eq]

end FileTree

end EngineUpkeep
