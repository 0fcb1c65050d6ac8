import EngineUpkeep.Proofs.Text.ByteOrder
import EngineUpkeep.Proofs.Text.Search
import EngineUpkeep.Selection
import Mathlib.Data.List.Sort

/-!
# Which sources are selected

Whether a source is selected can be seen from its path alone, apart from the question whether the
database has it (`Selection.source?_eq_some_iff`). So a selection is a set: it does not matter in
which order entries and patterns are given or how often, two databases give what each of them gives,
and more patterns make it smaller or larger as they should (`Selection.isSelection_ofDatabase`).
-/

namespace EngineUpkeep

/-- A path has a key exactly if the root is at its front. -/
theorem Path.exists_key?_iff {root path : Path} :
    (∃ key, Path.key? root path = some key) ↔ root.components <+: path.components := by
  rw [← List.isPrefixOf_iff_prefix]
  constructor
  · rintro ⟨key, hkey⟩
    obtain ⟨rest, hrest, -⟩ := Option.map_eq_some_iff.1 hkey
    rw [relativeTo?] at hrest
    split at hrest
    · cases hrest
    · next hprefix => simpa using hprefix
  · intro hprefix
    rw [key?, relativeTo?, hprefix]
    cases root.components <;> simp

namespace Selection

variable {entries entries' : List CompileCommand} {root : Path}
  {includes includes' excludes excludes' : List Text} {entry : CompileCommand} {file key : Text}

/-- A pattern is found in a key if it stands somewhere in it. -/
theorem passes_iff : passes includes excludes key = true ↔
    (includes = [] ∨ ∃ pattern ∈ includes, pattern <:+: key) ∧
      ∀ pattern ∈ excludes, ¬ pattern <:+: key := by
  simp [passes, ← Text.contains_iff]

/-- What a path has to be like to be selected, if the database has it. -/
structure IsSelected (root : Path) (includes excludes : List Text) (file : Text) : Prop where
  /-- The path lies under the root. -/
  under_root : root.components <+: (Path.mk file).components
  /-- It names a compilation unit. -/
  isUnit : isUnit ⟨file⟩ = true
  /-- Its key has one of the patterns `includes` in it, if there are any, and none of `excludes`. -/
  passes : ∃ key, Path.key? root ⟨file⟩ = some key ∧
    (includes = [] ∨ ∃ pattern ∈ includes, pattern <:+: key) ∧
    ∀ pattern ∈ excludes, ¬ pattern <:+: key

/-- An entry gives the path of its source, if this is like that. -/
theorem source?_eq_some_iff : source? root includes excludes entry = some file ↔
    entry.sourceFile = ⟨file⟩ ∧ IsSelected root includes excludes file := by
  constructor
  · intro h
    obtain ⟨key, hkey, hsource⟩ := Option.bind_eq_some_iff.1 h
    split at hsource
    · next hselected =>
      -- The path that is given is the one that was tested.
      cases hsource
      rw [Bool.and_eq_true] at hselected
      obtain ⟨hpasses, hunit⟩ := hselected
      exact ⟨rfl, Path.exists_key?_iff.1 ⟨key, hkey⟩, hunit, key, hkey, passes_iff.1 hpasses⟩
    · cases hsource
  · rintro ⟨hsource, hselected⟩
    obtain ⟨key, hkey, hpasses⟩ := hselected.passes
    rw [source?, hsource, hkey]
    simp [passes_iff.2 hpasses, hselected.isUnit]

/-- The selection, said of its members. -/
theorem mem_ofDatabase_iff : file ∈ ofDatabase entries root includes excludes ↔
    (∃ entry ∈ entries, entry.sourceFile = ⟨file⟩) ∧ IsSelected root includes excludes file := by
  rw [mem_ofDatabase]
  simp only [source?_eq_some_iff, ← and_assoc, exists_and_right]

/-- What is selected is also selected with more patterns that include and fewer that exclude. If no
pattern includes, everything passes, so there the patterns have to stay away. -/
theorem IsSelected.mono (h : IsSelected root includes excludes file)
    (hincludes : includes' = [] ∨ includes ≠ [] ∧ includes ⊆ includes')
    (hexcludes : excludes' ⊆ excludes) : IsSelected root includes' excludes' file := by
  obtain ⟨key, hkey, hincluded, hexcluded⟩ := h.passes
  refine ⟨h.under_root, h.isUnit, key, hkey, ?_, fun pattern hpattern =>
    hexcluded pattern (hexcludes hpattern)⟩
  obtain hnone | ⟨hsome, hmore⟩ := hincludes
  · exact .inl hnone
  · obtain ⟨pattern, hpattern, hfound⟩ := hincluded.resolve_left hsome
    exact .inr ⟨pattern, hmore hpattern, hfound⟩

/-- The same patterns in another order or number select the same. -/
theorem IsSelected.congr (h : IsSelected root includes excludes file)
    (hincludes : ∀ pattern, pattern ∈ includes' ↔ pattern ∈ includes)
    (hexcludes : ∀ pattern, pattern ∈ excludes' ↔ pattern ∈ excludes) :
    IsSelected root includes' excludes' file := by
  refine h.mono ?_ fun pattern hpattern => (hexcludes pattern).1 hpattern
  by_cases hnone : includes = []
  · left
    rw [hnone] at hincludes
    exact List.eq_nil_iff_forall_not_mem.2 fun pattern hpattern =>
      List.not_mem_nil ((hincludes pattern).1 hpattern)
  · exact .inr ⟨hnone, fun pattern hpattern => (hincludes pattern).2 hpattern⟩

/-- Selections are compared by their members. -/
theorem eq_ofDatabase_iff {files : List Text} (h : files.Pairwise (· < ·)) :
    files = ofDatabase entries root includes excludes ↔
      ∀ file, file ∈ files ↔
        (∃ entry ∈ entries, entry.sourceFile = ⟨file⟩) ∧ IsSelected root includes excludes file := by
  simp only [← mem_ofDatabase_iff]
  constructor
  · rintro rfl file
    rfl
  · -- Strictly increasing lists are equal if their members are the same.
    exact h.eq_of_mem_iff (pairwise_ofDatabase entries root includes excludes)

/-- The selection is the strictly increasing list, in the order of bytes, of those sources of entries
that lie under the root, are compilation units and pass the patterns. It is the same for the same
entries and patterns in another order or number. For two databases it is the sorted union of both
selections. More patterns that exclude leave no other source in, and more patterns that include, if
there are some, leave none out. -/
theorem isSelection_ofDatabase (entries : List CompileCommand) (root : Path)
    (includes excludes : List Text) :
    let selected := ofDatabase entries root includes excludes
    (selected.Pairwise fun a b => Utf8.encode a < Utf8.encode b) ∧
    (∀ file, file ∈ selected ↔
      (∃ entry ∈ entries, entry.sourceFile = ⟨file⟩) ∧ IsSelected root includes excludes file) ∧
    (∀ entries' includes' excludes', (∀ entry, entry ∈ entries' ↔ entry ∈ entries) →
      (∀ pattern, pattern ∈ includes' ↔ pattern ∈ includes) →
      (∀ pattern, pattern ∈ excludes' ↔ pattern ∈ excludes) →
      ofDatabase entries' root includes' excludes' = selected) ∧
    (∀ more, ofDatabase (entries ++ more) root includes excludes =
      Text.sortDistinct (selected ++ ofDatabase more root includes excludes)) ∧
    (∀ excludes', excludes ⊆ excludes' → ofDatabase entries root includes excludes' ⊆ selected) ∧
    (∀ includes', includes ≠ [] → includes ⊆ includes' →
      selected ⊆ ofDatabase entries root includes' excludes) := by
  intro selected
  refine ⟨(pairwise_ofDatabase _ _ _ _).imp Utf8.encode_lt_encode, fun file => mem_ofDatabase_iff,
    ?_, ?_, ?_, ?_⟩
  · intro entries' includes' excludes' hentries hincludes hexcludes
    refine (eq_ofDatabase_iff (pairwise_ofDatabase _ _ _ _)).2 fun file => ?_
    rw [mem_ofDatabase_iff]
    simp only [hentries]
    refine and_congr_right fun _ => ⟨fun h => ?_, fun h => h.congr hincludes hexcludes⟩
    exact h.congr (fun pattern => (hincludes pattern).symm) fun pattern => (hexcludes pattern).symm
  · intro more
    refine ((eq_ofDatabase_iff (Text.pairwise_sortDistinct _)).2 fun file => ?_).symm
    rw [Text.mem_sortDistinct, List.mem_append, mem_ofDatabase_iff, mem_ofDatabase_iff,
      ← or_and_right]
    -- An entry of both databases is an entry of one of them.
    simp only [List.mem_append, or_and_right, exists_or]
  · intro excludes' hmore file hfile
    obtain ⟨hentry, hselected⟩ := mem_ofDatabase_iff.1 hfile
    refine mem_ofDatabase_iff.2 ⟨hentry, hselected.mono ?_ hmore⟩
    -- The patterns that include are the same, whether there are any or not.
    by_cases hnone : includes = []
    · exact .inl hnone
    · exact .inr ⟨hnone, List.Subset.refl includes⟩
  · intro includes' hsome hmore file hfile
    obtain ⟨hentry, hselected⟩ := mem_ofDatabase_iff.1 hfile
    exact mem_ofDatabase_iff.2
      ⟨hentry, hselected.mono (.inr ⟨hsome, hmore⟩) (List.Subset.refl excludes)⟩

end Selection

end EngineUpkeep
