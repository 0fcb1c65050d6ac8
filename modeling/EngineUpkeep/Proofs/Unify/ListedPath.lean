import EngineUpkeep.Proofs.Text.Pieces
import EngineUpkeep.Unify.SourceTree

/-!
# Paths with a group and an entry

What a path inside a source tree is to look like, said without a way to read it
(`ListedPath.Splits`). Reading a path finds its group and its entry if there are any
(`ListedPath.ofText_eq_ok_iff`), and is refused if there is no group
(`ListedPath.ofText_eq_error_iff`). An entry may be missing.
-/

namespace EngineUpkeep

namespace ListedPath

/-- A path has this group and this entry: it is split at its first slash, with something in front
of it. -/
structure Splits (listed : ListedPath) (path : Text) : Prop where
  /-- There is a group. -/
  group_ne_nil : listed.group ≠ []
  /-- The group is one name. -/
  notMem_group : '/' ∉ listed.group
  /-- The slash is between the group and the entry. -/
  path_eq : path = listed.group ++ '/' :: listed.entry

/-- A path has a group. -/
def HasGroup (path : Text) : Prop :=
  ∃ listed : ListedPath, listed.Splits path

/-- A path has the form that a path inside a tree is to have, a group and an entry. -/
def IsListed (path : Text) : Prop :=
  ∃ listed : ListedPath, listed.Splits path ∧ listed.entry ≠ []

/-- A path has a group, but nothing behind the slash. -/
def LacksEntry (path : Text) : Prop :=
  ∃ listed : ListedPath, listed.Splits path ∧ listed.entry = []

variable {path : Text} {listed other : ListedPath} {failure : Failure}

/-- Paths are split as they are to be. -/
theorem ofText_eq_ok_iff : ofText path = .ok listed ↔ listed.Splits path := by
  constructor
  · intro h
    rw [ofText] at h
    split at h
    · next group entry hsplit =>
      split at h
      · cases h
      · next hgroup =>
        cases h
        exact ⟨hgroup, Text.notMem_of_splitOnce hsplit, Text.eq_append_of_splitOnce hsplit⟩
    · cases h
  · rintro ⟨hgroup, hslash, rfl⟩
    rw [ofText, Text.splitOnce_append hslash]
    exact if_neg hgroup

/-- A path is refused for nothing but its shape. -/
theorem eq_pathShape_of_ofText (h : ofText path = .error failure) : failure = .pathShape path := by
  rw [ofText] at h
  split at h
  · split at h <;> cases h
    rfl
  · cases h
    rfl

/-- A path is refused if it has no group. -/
theorem ofText_eq_error_iff :
    ofText path = .error failure ↔ failure = .pathShape path ∧ ¬ HasGroup path := by
  constructor
  · intro h
    refine ⟨eq_pathShape_of_ofText h, ?_⟩
    rintro ⟨listed, hsplits⟩
    rw [ofText_eq_ok_iff.2 hsplits] at h
    cases h
  · rintro ⟨rfl, hgroup⟩
    rcases hread : ofText path with failure | listed
    · rw [eq_pathShape_of_ofText hread]
    · exact absurd ⟨listed, ofText_eq_ok_iff.1 hread⟩ hgroup

/-- A path is split in one way. -/
theorem Splits.eq (h : listed.Splits path) (hother : other.Splits path) : listed = other :=
  Except.ok.inj ((ofText_eq_ok_iff.2 h).symm.trans (ofText_eq_ok_iff.2 hother))

theorem Splits.isListed_iff (h : listed.Splits path) : IsListed path ↔ listed.entry ≠ [] :=
  ⟨fun ⟨_, hother, hentry⟩ => h.eq hother ▸ hentry, fun hentry => ⟨listed, h, hentry⟩⟩

theorem Splits.lacksEntry_iff (h : listed.Splits path) : LacksEntry path ↔ listed.entry = [] :=
  ⟨fun ⟨_, hother, hentry⟩ => h.eq hother ▸ hentry, fun hentry => ⟨listed, h, hentry⟩⟩

theorem IsListed.hasGroup (h : IsListed path) : HasGroup path :=
  ⟨h.choose, h.choose_spec.1⟩

instance (path : Text) : Decidable (HasGroup path) :=
  match hread : ofText path with
  | .ok listed => .isTrue ⟨listed, ofText_eq_ok_iff.1 hread⟩
  | .error _ => .isFalse (ofText_eq_error_iff.1 hread).2

instance (path : Text) : Decidable (IsListed path) :=
  match hread : ofText path with
  | .ok _ => decidable_of_iff' _ (ofText_eq_ok_iff.1 hread).isListed_iff
  | .error _ => .isFalse fun h => (ofText_eq_error_iff.1 hread).2 h.hasGroup

end ListedPath

end EngineUpkeep
