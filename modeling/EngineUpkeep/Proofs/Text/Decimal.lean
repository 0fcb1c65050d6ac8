import EngineUpkeep.Text.Basic
import Mathlib.Data.List.Basic

/-!
# Numbers in decimal

A number is its last digit behind the tenth part of it, if that is not zero (`ofNat_eq`). So it is
written in ASCII digits (`isAsciiDigit_of_mem_ofNat`) and does not begin with a zero, unless it is
zero (`head?_ofNat_ne`), and the digits give the number back (`asciiValue_ofNat`). An integer is
given back by its sign and its digits (`toInt?_ofInt`).
-/

namespace EngineUpkeep

namespace Text

/-! ## The digits of a natural number -/

/-- All digits are written if there are fewer of them than the fuel allows for. -/
theorem decimalDigits_eq_of_lt {n fuel more : Nat} (h : n < fuel) (hmore : n < more) :
    decimalDigits fuel n = decimalDigits more n := by
  induction fuel generalizing n more with
  | zero => exact absurd h (Nat.not_lt_zero n)
  | succ fuel ih =>
    obtain ⟨more, rfl⟩ := Nat.exists_eq_succ_of_ne_zero (Nat.ne_zero_of_lt hmore)
    rw [decimalDigits, decimalDigits]
    split
    · rfl
    · rw [ih (show n / 10 < fuel by omega) (show n / 10 < more by omega)]

theorem ofNat_eq (n : Nat) :
    ofNat n = if n < 10 then [Char.ofNat (48 + n)]
      else ofNat (n / 10) ++ [Char.ofNat (48 + n % 10)] := by
  rw [ofNat, decimalDigits]
  split
  · rfl
  · rw [decimalDigits_eq_of_lt (show n / 10 < n by omega) (Nat.lt_succ_self _), ← ofNat]

theorem ofNat_ne_nil (n : Nat) : ofNat n ≠ [] := by
  rw [ofNat_eq]
  split
  · exact List.cons_ne_nil _ _
  · exact List.append_ne_nil_of_right_ne_nil _ (List.cons_ne_nil _ _)

theorem isAsciiDigit_of_mem_ofNat {n : Nat} {c : Char} (h : c ∈ ofNat n) :
    isAsciiDigit c = true := by
  have hdigit : ∀ digit < 10, isAsciiDigit (Char.ofNat (48 + digit)) = true := by decide
  induction n using Nat.strongRecOn with
  | ind n ih =>
    rw [ofNat_eq] at h
    split at h
    · next hlt =>
      obtain rfl := List.mem_singleton.1 h
      exact hdigit n hlt
    · obtain hbefore | hlast := List.mem_append.1 h
      · exact ih (n / 10) (by omega) hbefore
      · obtain rfl := List.mem_singleton.1 hlast
        exact hdigit (n % 10) (Nat.mod_lt n (by decide))

theorem asciiValue_ofNat (n : Nat) : asciiValue (ofNat n) = n := by
  have hdigit : ∀ digit < 10, (Char.ofNat (48 + digit)).toNat - 48 = digit := by decide
  induction n using Nat.strongRecOn with
  | ind n ih =>
    rw [ofNat_eq]
    split
    · next hlt =>
      show 0 * 10 + ((Char.ofNat (48 + n)).toNat - 48) = n
      rw [hdigit n hlt]
      omega
    · have htenth : asciiValue (ofNat (n / 10)) = n / 10 := ih (n / 10) (by omega)
      rw [asciiValue, List.foldl_append, ← asciiValue, htenth]
      show n / 10 * 10 + ((Char.ofNat (48 + n % 10)).toNat - 48) = n
      rw [hdigit (n % 10) (Nat.mod_lt n (by decide))]
      omega

/-- No number but zero begins with a zero. -/
theorem head?_ofNat_ne {n : Nat} (h : n ≠ 0) : (ofNat n).head? ≠ some '0' := by
  have hdigit : ∀ digit < 10, digit ≠ 0 → some (Char.ofNat (48 + digit)) ≠ some '0' := by decide
  induction n using Nat.strongRecOn with
  | ind n ih =>
    rw [ofNat_eq]
    split
    · next hlt => exact hdigit n hlt h
    · rw [List.head?_append_of_ne_nil _ (ofNat_ne_nil _)]
      exact ih (n / 10) (by omega) (by omega)

/-! ## Integers -/

/-- An integer begins with a minus sign or a digit. -/
theorem exists_ofInt_eq_cons (n : Int) :
    ∃ c digits, ofInt n = c :: digits ∧ (c = '-' ∨ isAsciiDigit c = true) := by
  cases n with
  | ofNat n =>
    obtain ⟨c, digits, hdigits⟩ := List.exists_cons_of_ne_nil (ofNat_ne_nil n)
    have hmem : c ∈ ofNat n := hdigits ▸ List.mem_cons_self
    exact ⟨c, digits, hdigits, .inr (isAsciiDigit_of_mem_ofNat hmem)⟩
  | negSucc n => exact ⟨'-', _, rfl, .inl rfl⟩

/-- The number that ASCII digits write, if there are any. -/
def toNat? (written : Text) : Option Nat :=
  if written.isEmpty || !written.all isAsciiDigit then none else some (asciiValue written)

/-- The number that ASCII digits write, with a minus sign in front of them or without. -/
def toInt? : Text → Option Int
  | '-' :: written => (toNat? written).map fun n => -n
  | written => (toNat? written).map fun n => n

theorem toNat?_ofNat (n : Nat) : toNat? (ofNat n) = some n := by
  have hsome : (ofNat n).isEmpty = false := List.isEmpty_eq_false_iff.2 (ofNat_ne_nil n)
  have hdigits : (ofNat n).all isAsciiDigit = true :=
    List.all_eq_true.2 fun _ => isAsciiDigit_of_mem_ofNat
  rw [toNat?, hsome, hdigits, asciiValue_ofNat]
  rfl

theorem toInt?_ofNat (n : Nat) : toInt? (ofNat n) = some (n : Int) := by
  unfold toInt?
  split
  · next written hsign =>
    have hmem : '-' ∈ ofNat n := hsign ▸ List.mem_cons_self
    exact absurd (isAsciiDigit_of_mem_ofNat hmem) (by decide)
  · rw [toNat?_ofNat]
    rfl

theorem toInt?_ofInt (n : Int) : toInt? (ofInt n) = some n := by
  cases n with
  | ofNat n => exact toInt?_ofNat n
  | negSucc n =>
    rw [ofInt, toInt?, toNat?_ofNat]
    rfl

end Text

end EngineUpkeep
