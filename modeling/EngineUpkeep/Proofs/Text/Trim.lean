import EngineUpkeep.Text.Blank
import Mathlib.Data.List.DropRight

/-!
# Trimmed texts

Trimming takes away blanks and nothing else, so what is not blank in a text can be counted in the
trimmed text as well (`countP_trim`), and each side of it is trimmed by itself (`trim_append_cons`).
Blanks at an end of a text make no difference to the trimmed text (`trim_append_blanks`,
`trim_blanks_append`), and everything else there does (`trim_eq_nil_of_trim_append_left`,
`trim_eq_nil_of_trim_append_right`).
-/

namespace EngineUpkeep

namespace Text

variable {text blanks : Text}

theorem trim_append_blanks (hblanks : ∀ c ∈ blanks, isBlank c = true) (text : Text) :
    trim (text ++ blanks) = trim text := by
  have hend : ∀ text : Text, trimEnd (text ++ blanks) = trimEnd text := by
    intro text
    have hreverse : ∀ c ∈ blanks.reverse, isBlank c = true := fun c hc =>
      hblanks c (List.mem_reverse.1 hc)
    rw [trimEnd, trimEnd, List.reverse_append, List.dropWhile_append_of_pos hreverse]
  rw [trim, trim, trimStart, trimStart, List.dropWhile_append]
  split
  · next hempty =>
    -- Nothing of the text is left, and nothing of the blanks.
    rw [List.isEmpty_iff.1 hempty, List.dropWhile_eq_nil_iff.2 hblanks]
  · exact hend _

theorem trim_blanks_append (hblanks : ∀ c ∈ blanks, isBlank c = true) (text : Text) :
    trim (blanks ++ text) = trim text := by
  rw [trim, trim, trimStart, trimStart, List.dropWhile_append_of_pos hblanks]

private theorem countP_dropWhile_isBlank (text : Text) :
    (text.dropWhile isBlank).countP (!isBlank ·) = text.countP (!isBlank ·) := by
  have htaken : (text.takeWhile isBlank).countP (!isBlank ·) = 0 :=
    List.countP_eq_zero.2 fun c hc => by simp [List.mem_takeWhile_imp hc]
  calc (text.dropWhile isBlank).countP (!isBlank ·)
    _ = (text.takeWhile isBlank).countP (!isBlank ·) +
        (text.dropWhile isBlank).countP (!isBlank ·) := by rw [htaken, Nat.zero_add]
    _ = text.countP (!isBlank ·) := by
      rw [← List.countP_append, List.takeWhile_append_dropWhile]

/-- Trimming takes away blanks and nothing else. -/
theorem countP_trim (text : Text) :
    (trim text).countP (!isBlank ·) = text.countP (!isBlank ·) := by
  rw [trim, trimEnd, List.countP_reverse, countP_dropWhile_isBlank, List.countP_reverse, trimStart,
    countP_dropWhile_isBlank]

/-- Nothing is left of blanks, and something of every other text. -/
theorem trim_eq_nil_iff : trim text = [] ↔ ∀ c ∈ text, isBlank c = true := by
  constructor
  · intro h
    have hcount := countP_trim text
    rw [h, List.countP_nil, eq_comm, List.countP_eq_zero] at hcount
    simpa using hcount
  · intro h
    have happend := trim_append_blanks h []
    rwa [List.nil_append] at happend

/-- A text without blanks at its ends is trimmed already. -/
theorem trim_eq_self (hfirst : ∀ c ∈ text.head?, isBlank c = false)
    (hlast : ∀ c ∈ text.getLast?, isBlank c = false) : trim text = text := by
  have hkept : ∀ text : Text, (∀ c ∈ text.head?, isBlank c = false) →
      text.dropWhile isBlank = text := by
    intro text hhead
    cases text with
    | nil => rfl
    | cons c rest => exact List.dropWhile_cons_of_neg (by simp [hhead c rfl])
  have hreverse : ∀ c ∈ text.reverse.head?, isBlank c = false := by
    rw [List.head?_reverse]
    exact hlast
  rw [trim, trimStart, hkept text hfirst, trimEnd, hkept _ hreverse, List.reverse_reverse]

/-- What is not blank splits a text into parts that are trimmed at one end each. -/
theorem trim_append_cons {c : Char} (hc : isBlank c = false) (before after : Text) :
    trim (before ++ c :: after) = trimStart before ++ c :: trimEnd after := by
  have hstop : ∀ after, (c :: after).dropWhile isBlank = c :: after := fun after =>
    List.dropWhile_cons_of_neg (by simp [hc])
  -- This is used from either end, with the text reversed for the other one.
  have hstart : ∀ before after : Text, (before ++ c :: after).dropWhile isBlank =
      before.dropWhile isBlank ++ c :: after := by
    intro before after
    rw [List.dropWhile_append]
    split
    · next hempty =>
      rw [List.isEmpty_iff.1 hempty, hstop, List.nil_append]
    · rfl
  rw [trim, trimStart, hstart, trimEnd, List.reverse_append, List.reverse_cons, List.append_assoc,
    List.singleton_append, hstart, trimStart, trimEnd]
  simp

theorem trim_trimStart (text : Text) : trim (trimStart text) = trim text := by
  rw [trim, trim, trimStart, trimStart, List.dropWhile_idempotent]

/-- The blanks that are trimmed stand around what is left. -/
theorem exists_blanks_trim (text : Text) :
    ∃ front back, (∀ c ∈ front, isBlank c = true) ∧ (∀ c ∈ back, isBlank c = true) ∧
      text = front ++ (trim text ++ back) := by
  refine ⟨text.takeWhile isBlank, ((trimStart text).reverse.takeWhile isBlank).reverse,
    fun c hc => List.mem_takeWhile_imp hc,
    fun c hc => List.mem_takeWhile_imp (List.mem_reverse.1 hc), ?_⟩
  rw [trim, trimEnd, ← List.reverse_append, List.takeWhile_append_dropWhile, List.reverse_reverse,
    trimStart, List.takeWhile_append_dropWhile]

theorem trim_infix (text : Text) : trim text <:+: text := by
  obtain ⟨front, back, -, -, htext⟩ := exists_blanks_trim text
  refine ⟨front, back, ?_⟩
  rw [List.append_assoc]
  exact htext.symm

/-- What is put behind a text without a change to the trimmed text is blank. -/
theorem trim_eq_nil_of_trim_append_left {before after : Text}
    (h : trim (before ++ after) = trim before) : trim after = [] := by
  have hcount := congrArg (List.countP (!isBlank ·)) h
  rw [countP_trim, countP_trim, List.countP_append, Nat.add_eq_left, List.countP_eq_zero] at hcount
  exact trim_eq_nil_iff.2 (by simpa using hcount)

/-- So is what is put in front of one. -/
theorem trim_eq_nil_of_trim_append_right {before after : Text}
    (h : trim (before ++ after) = trim after) : trim before = [] := by
  have hcount := congrArg (List.countP (!isBlank ·)) h
  rw [countP_trim, countP_trim, List.countP_append, Nat.add_eq_right, List.countP_eq_zero] at hcount
  exact trim_eq_nil_iff.2 (by simpa using hcount)

end Text

end EngineUpkeep
