import EngineUpkeep.Json.Writer
import EngineUpkeep.Proofs.Text.Decimal
import EngineUpkeep.Proofs.Text.Pieces

/-!
# Values of texts and whole numbers

The values that are written are made of texts and whole numbers (`Json.Plain`). Such a value is
written without control characters, so it is one line (`Json.Plain.noControls_write`): those in
texts are escaped, and numbers have none. Items and members are written with commas between them
(`Json.writeItems_eq_join`, `Json.writeMembers_eq_join`).
-/

namespace EngineUpkeep

namespace Text

/-- No character comes before the blank. -/
def NoControls (text : Text) : Prop :=
  ∀ c ∈ text, 0x20 ≤ c.toNat

/-- Whether a text has no control characters is decidable. -/
instance (text : Text) : Decidable text.NoControls :=
  List.decidableBAll _ text

theorem NoControls.append {first second : Text} (h : first.NoControls) (h' : second.NoControls) :
    (first ++ second).NoControls :=
  List.forall_mem_append.2 ⟨h, h'⟩

theorem NoControls.between {text : Text} (h : text.NoControls) {opening closing : Char}
    (hopening : 0x20 ≤ opening.toNat) (hclosing : 0x20 ≤ closing.toNat) :
    NoControls (opening :: text ++ [closing]) := by
  have hfirst : NoControls (opening :: text) := List.forall_mem_cons.2 ⟨hopening, h⟩
  exact hfirst.append (List.forall_mem_singleton.2 hclosing)

theorem NoControls.join {mark : Text} {pieces : List Text} (hmark : mark.NoControls)
    (hpieces : ∀ piece ∈ pieces, piece.NoControls) : (join mark pieces).NoControls := by
  intro c hc
  obtain hmem | ⟨piece, hpiece, hmem⟩ := mem_or_exists_of_mem_join hc
  · exact hmark c hmem
  · exact hpieces piece hpiece c hmem

/-- Such a text is one line. -/
theorem NoControls.notMem {text : Text} (h : text.NoControls) : '\n' ∉ text :=
  fun hmem => absurd (h '\n' hmem) (by decide)

theorem noControls_ofNat (n : Nat) : (ofNat n).NoControls := by
  intro c hc
  have hdigit := isAsciiDigit_of_mem_ofNat hc
  rw [isAsciiDigit, Bool.and_eq_true, decide_eq_true_eq] at hdigit
  exact Nat.le_trans (by decide) hdigit.1

theorem noControls_ofInt (n : Int) : (ofInt n).NoControls := by
  cases n with
  | ofNat n => exact noControls_ofNat n
  | negSucc n => exact List.forall_mem_cons.2 ⟨by decide, noControls_ofNat (n + 1)⟩

end Text

namespace Json

/-- A value without numbers that are not whole and without strings that are no text. -/
inductive Plain : Json → Prop where
  /-- The value `null`. -/
  | null : Plain .null
  /-- A truth value. -/
  | bool (value : Bool) : Plain (.bool value)
  /-- A whole number. -/
  | ofInt (n : Int) : Plain (.ofInt n)
  /-- A text. -/
  | ofText (text : Text) : Plain (.ofText text)
  /-- An array of plain values. -/
  | array {items : List Json} (h : ∀ item ∈ items, Plain item) : Plain (.array items)
  /-- An object of plain values. -/
  | ofFields {fields : List (Text × Json)} (h : ∀ field ∈ fields, Plain field.2) :
      Plain (.ofFields fields)

theorem Plain.ofNat (n : Nat) : Plain (.ofNat n) :=
  .ofInt n

/-! ## Written values -/

/-- The items of an array are written with commas between them. -/
theorem writeItems_eq_join (items : List Json) :
    writeItems items = Text.join [','] (items.map write) := by
  induction items with
  | nil => rfl
  | cons item items ih =>
    cases items with
    | nil => rfl
    | cons next items =>
      rw [writeItems, ih]
      simp [Text.join]

/-- So are the members of an object. -/
theorem writeMembers_eq_join (members : List (Option Text × Json)) :
    writeMembers members = Text.join [','] (members.map writeMember) := by
  induction members with
  | nil => rfl
  | cons member members ih =>
    cases members with
    | nil => rfl
    | cons next members =>
      rw [writeMembers, ih]
      simp [Text.join]

/-- The fields of an object as members. -/
def membersOf (fields : List (Text × Json)) : List (Option Text × Json) :=
  fields.map fun field => (some field.1, field.2)

theorem ofFields_eq (fields : List (Text × Json)) : ofFields fields = .object (membersOf fields) :=
  rfl

theorem noControls_quote (text : Text) : (quote text).NoControls := by
  have hescaped : Text.NoControls (text.flatMap escape) := by
    intro c hc
    obtain ⟨unescaped, -, hmem⟩ := List.mem_flatMap.1 hc
    exact of_decide_eq_true (List.all_eq_true.1 (all_escape unescaped) c hmem)
  exact hescaped.between (by decide) (by decide)

/-- A plain value is written without control characters. -/
theorem Plain.noControls_write {value : Json} (h : value.Plain) : value.write.NoControls := by
  -- Brackets, braces, colons and commas are no control characters, so only the parts count.
  induction h with
  | null =>
    show Text.NoControls "null".toList
    decide
  | bool value =>
    cases value
    · show Text.NoControls "false".toList
      decide
    · show Text.NoControls "true".toList
      decide
  | ofInt n => exact Text.noControls_ofInt n
  | ofText text => exact noControls_quote text
  | @array items _ ih =>
    have hitems : (writeItems items).NoControls := by
      rw [writeItems_eq_join]
      exact Text.NoControls.join (by decide) (List.forall_mem_map.2 ih)
    exact hitems.between (by decide) (by decide)
  | @ofFields fields _ ih =>
    have hmember : ∀ field ∈ fields, (writeMember (some field.1, field.2)).NoControls := by
      intro field hfield
      refine (noControls_quote field.1).append ?_
      exact List.forall_mem_cons.2 ⟨by decide, ih field hfield⟩
    have hmembers : (writeMembers (membersOf fields)).NoControls := by
      rw [writeMembers_eq_join, membersOf, List.map_map]
      exact Text.NoControls.join (by decide) (List.forall_mem_map.2 hmember)
    rw [ofFields_eq]
    exact hmembers.between (by decide) (by decide)

end Json

end EngineUpkeep
