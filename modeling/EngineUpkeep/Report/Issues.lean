import EngineUpkeep.Text.Ordered

/-!
# Issues by file

The lines that were reported about each file. The files are strictly increasing, so that two maps
with the same lines for each file are the same map. `linesOf` says which lines a file has.
-/

namespace EngineUpkeep

/-- The reported lines of each file. -/
structure Issues where
  /-- The files with their lines. -/
  entries : List (Text × List Text)
  /-- The files are strictly increasing. -/
  ordered : (entries.map (·.1)).Pairwise (· < ·)
deriving DecidableEq

namespace Issues

/-- The map without files. -/
def empty : Issues := ⟨[], .nil⟩

/-- The files that have an entry. -/
def files (issues : Issues) : List Text :=
  issues.entries.map (·.1)

/-- The lines of a file, none if it has no entry. -/
def linesOf (issues : Issues) (file : Text) : List Text :=
  (issues.entries.lookup file).getD []

/-- Puts lines behind those of a file in a list of entries. -/
def addToEntries (file : Text) (lines : List Text) :
    List (Text × List Text) → List (Text × List Text)
  | [] => [(file, lines)]
  | entry :: rest =>
    if file = entry.1 then (entry.1, entry.2 ++ lines) :: rest
    else if file < entry.1 then (file, lines) :: entry :: rest
    else entry :: addToEntries file lines rest

/-- Adding lines adds the file to the files. -/
theorem map_fst_addToEntries (file : Text) (lines : List Text)
    (entries : List (Text × List Text)) :
    (addToEntries file lines entries).map (·.1) =
      Text.insertDistinct file (entries.map (·.1)) := by
  induction entries with
  | nil => rfl
  | cons entry rest ih =>
    simp only [addToEntries, Text.insertDistinct, List.map_cons]
    split
    · rfl
    · split
      · rfl
      · simp [ih]

/-- Puts lines behind those that a file has. -/
def add (issues : Issues) (file : Text) (lines : List Text) : Issues :=
  ⟨addToEntries file lines issues.entries, by
    rw [map_fst_addToEntries]
    exact Text.pairwise_insertDistinct issues.ordered⟩

/-- The number of lines of all files. -/
def total (issues : Issues) : Nat :=
  (issues.entries.flatMap (·.2)).length

@[simp]
theorem files_empty : empty.files = [] := rfl

@[simp]
theorem linesOf_empty (file : Text) : empty.linesOf file = [] := rfl

theorem files_add (issues : Issues) (file : Text) (lines : List Text) :
    (issues.add file lines).files = Text.insertDistinct file issues.files :=
  map_fst_addToEntries file lines issues.entries

/-- A list of entries whose files all come after a file has no entry for it. -/
theorem lookup_eq_none_of_lt {file : Text} {entries : List (Text × List Text)}
    (h : ∀ entry ∈ entries, file < entry.1) : entries.lookup file = none := by
  rw [List.lookup_eq_none_iff]
  intro entry hmem
  have hlt := h entry hmem
  refine bne_iff_ne.2 fun heq => ?_
  rw [← heq] at hlt
  exact List.lt_irrefl _ hlt

theorem lookup_addToEntries (file other : Text) (lines : List Text)
    {entries : List (Text × List Text)} (hord : (entries.map (·.1)).Pairwise (· < ·)) :
    ((addToEntries file lines entries).lookup other).getD [] =
      if other = file then (entries.lookup other).getD [] ++ lines
      else (entries.lookup other).getD [] := by
  induction entries with
  | nil =>
    by_cases h : other = file
    · simp [addToEntries, h]
    · have hbeq : (other == file) = false := beq_eq_false_iff_ne.2 h
      simp [addToEntries, List.lookup_cons, h, hbeq]
  | cons entry rest ih =>
    obtain ⟨name, old⟩ := entry
    simp only [List.map_cons, List.pairwise_cons] at hord
    simp only [addToEntries]
    split
    · next hfile =>
      subst hfile
      by_cases h : other = file
      · simp [h]
      · have hbeq : (other == file) = false := beq_eq_false_iff_ne.2 h
        simp [List.lookup_cons, h, hbeq]
    · next hne =>
      split
      · next hlt =>
        by_cases h : other = file
        · subst h
          have hnone : ((name, old) :: rest).lookup other = none := by
            refine lookup_eq_none_of_lt fun entry hmem => ?_
            rcases List.mem_cons.1 hmem with rfl | hmem
            · exact hlt
            · exact List.lt_trans hlt (hord.1 _ (List.mem_map_of_mem hmem))
          rw [List.lookup_cons, hnone]
          simp
        · have hbeq : (other == file) = false := beq_eq_false_iff_ne.2 h
          rw [List.lookup_cons, hbeq]
          simp [h]
      · by_cases hname : other = name
        · have hother : ¬ other = file := fun heq => hne (heq ▸ hname)
          subst hname
          simp [hother]
        · have hbeq : (other == name) = false := beq_eq_false_iff_ne.2 hname
          simp only [List.lookup_cons, hbeq]
          exact ih hord.2

/-- Adding lines to a file puts them behind its lines and leaves the other files. -/
theorem linesOf_add (issues : Issues) (file other : Text) (lines : List Text) :
    (issues.add file lines).linesOf other =
      if other = file then issues.linesOf other ++ lines else issues.linesOf other :=
  lookup_addToEntries file other lines issues.ordered

end Issues

end EngineUpkeep
