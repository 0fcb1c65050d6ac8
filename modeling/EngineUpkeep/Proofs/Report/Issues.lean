import EngineUpkeep.Report.Diagnostic
import Mathlib.Data.List.Sort

/-!
# Maps of issues

Issues in which no file is without lines are determined by the lines of each file
(`Issues.eq_of_linesOf`). Issues that come from diagnostics are of this kind, and the lines of a
file are its diagnostics in order (`Issues.linesOf_ofDiagnostics`).
-/

namespace EngineUpkeep

namespace Issues

/-! ## The lines of each file -/

/-- No file has an entry without lines. -/
def NoEmpty (issues : Issues) : Prop :=
  ∀ entry ∈ issues.entries, entry.2 ≠ []

theorem noEmpty_empty : empty.NoEmpty := by
  intro entry hmem
  cases hmem

private theorem lookup_of_mem {entries : List (Text × List Text)}
    (hord : (entries.map (·.1)).Pairwise (· < ·)) {entry : Text × List Text}
    (hmem : entry ∈ entries) : entries.lookup entry.1 = some entry.2 := by
  induction entries with
  | nil => cases hmem
  | cons first rest ih =>
    rw [List.map_cons, List.pairwise_cons] at hord
    rcases List.mem_cons.1 hmem with rfl | hmem
    · exact List.lookup_cons_self
    · have hlt : first.1 < entry.1 := hord.1 _ (List.mem_map_of_mem hmem)
      have hne : (entry.1 == first.1) = false := by
        refine beq_eq_false_iff_ne.2 fun heq => ?_
        rw [heq] at hlt
        exact List.lt_irrefl _ hlt
      rw [List.lookup_cons, hne]
      exact ih hord.2 hmem

theorem linesOf_of_mem {issues : Issues} {entry : Text × List Text}
    (hmem : entry ∈ issues.entries) : issues.linesOf entry.1 = entry.2 := by
  rw [linesOf, lookup_of_mem issues.ordered hmem]
  rfl

/-- The entries are the files, each with its lines. -/
theorem entries_eq_map (issues : Issues) :
    issues.entries = issues.files.map fun file => (file, issues.linesOf file) := by
  rw [files, List.map_map]
  refine (List.map_id' issues.entries).symm.trans (List.map_congr_left fun entry hmem => ?_)
  rw [Function.comp_apply, linesOf_of_mem hmem]

/-- A file without an entry has no lines. -/
theorem linesOf_of_notMem {issues : Issues} {file : Text} (h : file ∉ issues.files) :
    issues.linesOf file = [] := by
  have hnone : issues.entries.lookup file = none := by
    rw [List.lookup_eq_none_iff]
    intro entry hmem
    exact bne_iff_ne.2 fun heq => h (List.mem_map.2 ⟨entry, hmem, heq.symm⟩)
  rw [linesOf, hnone]
  rfl

/-- If no file is without lines, the files are those that have lines. -/
theorem NoEmpty.mem_files_iff {issues : Issues} (h : issues.NoEmpty) {file : Text} :
    file ∈ issues.files ↔ issues.linesOf file ≠ [] := by
  constructor
  · intro hmem
    obtain ⟨entry, hentry, rfl⟩ := List.mem_map.1 hmem
    rw [linesOf_of_mem hentry]
    exact h entry hentry
  · intro hlines
    by_contra hnot
    exact hlines (linesOf_of_notMem hnot)

/-- Issues in which no file is without lines are the same if each file has the same lines. -/
theorem eq_of_linesOf {a b : Issues} (ha : a.NoEmpty) (hb : b.NoEmpty)
    (h : ∀ file, a.linesOf file = b.linesOf file) : a = b := by
  have hfiles : a.files = b.files := by
    refine List.Pairwise.eq_of_mem_iff a.ordered b.ordered fun file => ?_
    rw [ha.mem_files_iff, hb.mem_files_iff, h]
  have hentries : a.entries = b.entries := by
    rw [a.entries_eq_map, b.entries_eq_map, hfiles]
    exact List.map_congr_left fun file _ => by rw [h]
  cases a
  cases b
  cases hentries
  rfl

/-! ## Adding lines -/

theorem NoEmpty.add {issues : Issues} (h : issues.NoEmpty) (file : Text) {lines : List Text}
    (hlines : lines ≠ []) : (issues.add file lines).NoEmpty := by
  have hentries : ∀ entries : List (Text × List Text), (∀ entry ∈ entries, entry.2 ≠ []) →
      ∀ entry ∈ addToEntries file lines entries, entry.2 ≠ [] := by
    intro entries
    induction entries with
    | nil =>
      intro _ entry hmem
      rw [addToEntries, List.mem_singleton] at hmem
      rw [hmem]
      exact hlines
    | cons first rest ih =>
      intro hall entry hmem
      rw [addToEntries] at hmem
      have hrest : ∀ entry ∈ rest, entry.2 ≠ [] := fun other hother =>
        hall other (List.mem_cons_of_mem _ hother)
      -- The lines go behind those of the first file, in front of it, or somewhere behind it.
      split at hmem
      · rcases List.mem_cons.1 hmem with rfl | hmem
        · exact List.append_ne_nil_of_right_ne_nil _ hlines
        · exact hrest entry hmem
      · split at hmem
        · rcases List.mem_cons.1 hmem with rfl | hmem
          · exact hlines
          · exact hall entry hmem
        · rcases List.mem_cons.1 hmem with rfl | hmem
          · exact hall _ List.mem_cons_self
          · exact ih hrest entry hmem
  exact hentries issues.entries h

/-- Adding lines raises the total by their number. -/
theorem total_add (issues : Issues) (file : Text) (lines : List Text) :
    (issues.add file lines).total = issues.total + lines.length := by
  have hentries : ∀ entries : List (Text × List Text),
      ((addToEntries file lines entries).flatMap (·.2)).length =
        (entries.flatMap (·.2)).length + lines.length := by
    intro entries
    induction entries with
    | nil => simp [addToEntries]
    | cons first rest ih =>
      rw [addToEntries]
      split
      · simp only [List.flatMap_cons, List.length_append]
        omega
      · split
        · simp only [List.flatMap_cons, List.length_append]
          omega
        · simp only [List.flatMap_cons, List.length_append, ih]
          omega
  exact hentries issues.entries

/-! ## Filing diagnostics -/

theorem noEmpty_ofDiagnostics (diagnostics : List (Text × Text)) :
    (ofDiagnostics diagnostics).NoEmpty := by
  have hfold : ∀ issues : Issues, issues.NoEmpty → (diagnostics.foldl file issues).NoEmpty := by
    induction diagnostics with
    | nil => exact fun _ h => h
    | cons d diagnostics ih => exact fun issues h => ih _ (h.add d.1 (List.cons_ne_nil d.2 []))
  exact hfold empty noEmpty_empty

theorem linesOf_ofDiagnostics (diagnostics : List (Text × Text)) (key : Text) :
    (ofDiagnostics diagnostics).linesOf key =
      (diagnostics.filter fun d => d.1 = key).map (·.2) := by
  rw [ofDiagnostics, linesOf_foldl_file, linesOf_empty, List.nil_append]

end Issues

end EngineUpkeep
