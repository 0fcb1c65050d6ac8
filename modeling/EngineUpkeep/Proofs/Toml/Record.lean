import EngineUpkeep.Toml.Basic
import Mathlib.Data.List.Basic

/-!
# Records of TOML

What a value gives as a record, said name by name.

* `IsRecord` says which values stand for a record: a table whose other entries are sound, an array,
  and a date or a time.
* `field?` is what such a value gives under one name. A table gives its entry, an array the item at
  the place of the name, and a date or a time gives nothing.
* `record?_eq_some_iff`: reading a record gives what the value gives under each name.
-/

namespace EngineUpkeep

namespace Toml

variable {names : List Text} {fields : List (Option Toml)} {toml : Toml}

/-- The value stands for a record with these names. -/
def IsRecord (names : List Text) : Toml → Prop
  | .table entries => ∀ entry ∈ entries, entry.1 ∉ names → entry.2.isSound = true
  | .array _ => True
  | .moment _ => True
  | _ => False

/-- What a record with these names gives under one of them. -/
def field? (names : List Text) (name : Text) : Toml → Option Toml
  | .table entries => entries.lookup name
  | .array items => items[names.idxOf name]?
  | _ => none

/-- The value is a table. -/
def isTable : Toml → Bool
  | .table _ => true
  | _ => false

theorem entriesAreSound_iff {entries : List (Text × Toml)} :
    entriesAreSound entries = true ↔ ∀ entry ∈ entries, entry.2.isSound = true := by
  induction entries with
  | nil => simp [entriesAreSound]
  | cons entry entries ih =>
    have hentry : entryIsSound entry = entry.2.isSound := by rw [entryIsSound]
    simp only [entriesAreSound, hentry, Bool.and_eq_true, ih, List.forall_mem_cons]

/-- The items of an array and nothing behind them are the items at the places of the names. -/
theorem take_append_replicate_eq_map (hnames : names.Nodup) (items : List Toml) :
    (items.take names.length).map some ++ List.replicate (names.length - items.length) none =
      names.map fun name => items[names.idxOf name]? := by
  apply List.ext_getElem
  · simp
    omega
  · intro i hleft hright
    have hi : i < names.length := by simpa using hright
    rw [List.getElem_map, hnames.idxOf_getElem]
    by_cases hitem : i < items.length
    · rw [List.getElem_append_left (by simp; omega)]
      simp [hitem]
    · -- Behind the last item the array gives nothing.
      rw [List.getElem_append_right (by simp; omega)]
      simp [Nat.le_of_not_lt hitem]

/-- Reading a record gives what there is under each name. -/
theorem record?_eq_some_iff (hnames : names.Nodup) :
    toml.record? names = some fields ↔
      toml.IsRecord names ∧ fields = names.map fun name => toml.field? names name := by
  cases toml with
  | table entries =>
    have hsound : entriesAreSound (entries.filter fun entry => !names.contains entry.1) = true ↔
        (Toml.table entries).IsRecord names := by
      simp [entriesAreSound_iff, IsRecord]
    rw [record?, Option.ite_none_right_eq_some, hsound, Option.some.injEq, eq_comm]
    rfl
  | array items =>
    simp only [record?, IsRecord, field?, take_append_replicate_eq_map hnames, Option.some.injEq,
      true_and, eq_comm]
  | moment written => simp [record?, IsRecord, field?, eq_comm]
  | string text => simp [record?, IsRecord]
  | integer value => simp [record?, IsRecord]
  | plain written => simp [record?, IsRecord]
  | valueless written => simp [record?, IsRecord]

/-- What is made of a record is made of what there is under each name. -/
theorem record?_bind_eq_some_iff {α : Type} {use : List (Option Toml) → Option α} {result : α}
    (hnames : names.Nodup) :
    toml.record? names >>= use = some result ↔
      toml.IsRecord names ∧ use (names.map fun name => toml.field? names name) = some result := by
  rw [Option.bind_eq_bind, Option.bind_eq_some_iff]
  constructor
  · rintro ⟨fields, hread, huse⟩
    obtain ⟨hrecord, hfields⟩ := (record?_eq_some_iff hnames).1 hread
    exact ⟨hrecord, hfields ▸ huse⟩
  · rintro ⟨hrecord, huse⟩
    exact ⟨_, (record?_eq_some_iff hnames).2 ⟨hrecord, rfl⟩, huse⟩

end Toml

end EngineUpkeep
