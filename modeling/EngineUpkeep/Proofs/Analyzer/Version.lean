import EngineUpkeep.Analyzer.Version
import Mathlib.Data.List.TakeWhile

/-!
# The version in a text

Which version is read off a text, said by the places of the text at which a version stands. A place
is given by what is in front of it.

* `leftmost?_eq_some_iff`: a search finds what is at the first place at which there is something.
* `numbers?_eq_some_iff`: three numbers are taken with all digits of the last.
* `StandsAt mark text before version`: behind `before`, the text has the mark in some case, and
  directly behind that the version.
* `ofText?_spec`: the version of a text is the first that stands directly behind `LLVM`, wherever
  that is, and the first of all if there is no such version.
-/

namespace EngineUpkeep

namespace Version

/-! ## Searching -/

section Leftmost

variable {α : Type} {take : Text → Option α} {text before rest : Text} {c d : Char} {found : α}

/-- At this place of a text, `take` gives something. -/
def FoundAt (take : Text → Option α) (text before : Text) (found : α) : Prop :=
  ∃ rest, text = before ++ rest ∧ take rest = some found

/-- Something is at a place, and nothing is at a place before. -/
def IsFirst (isAt : Text → α → Prop) (before : Text) (found : α) : Prop :=
  isAt before found ∧ ∀ other found', isAt other found' → before.length ≤ other.length

theorem foundAt_nil : FoundAt take text [] found ↔ take text = some found := by
  simp [FoundAt]

theorem foundAt_cons :
    FoundAt take (c :: text) (d :: before) found ↔ c = d ∧ FoundAt take text before found := by
  simp [FoundAt, and_assoc]

theorem not_foundAt_nil_cons : ¬ FoundAt take [] (d :: before) found := by
  simp [FoundAt]

/-- A search finds what is at the first place. -/
theorem leftmost?_eq_some_iff :
    leftmost? take text = some found ↔ ∃ before, IsFirst (FoundAt take text) before found := by
  induction text with
  | nil =>
    rw [leftmost?]
    constructor
    · intro hhere
      exact ⟨[], foundAt_nil.2 hhere, by simp⟩
    · rintro ⟨_ | ⟨d, before⟩, hfound, -⟩
      · exact foundAt_nil.1 hfound
      · exact absurd hfound not_foundAt_nil_cons
  | cons c text ih =>
    rw [leftmost?]
    cases htake : take (c :: text) with
    | some here =>
      -- There is something at the front, so no other place is the first.
      have hhere : FoundAt take (c :: text) [] here := foundAt_nil.2 htake
      constructor
      · intro h
        obtain rfl : here = found := by simpa using h
        exact ⟨[], hhere, by simp⟩
      · rintro ⟨before, hfound, hfirst⟩
        obtain rfl : before = [] := by simpa using hfirst [] here hhere
        rw [← htake]
        simpa [foundAt_nil, htake] using hfound
    | none =>
      rw [Option.none_or, ih]
      have hnone : ∀ found', ¬ FoundAt take (c :: text) [] found' := by simp [foundAt_nil, htake]
      constructor
      · rintro ⟨before, hfound, hfirst⟩
        refine ⟨c :: before, foundAt_cons.2 ⟨rfl, hfound⟩, ?_⟩
        rintro (_ | ⟨d, other⟩) found' hother
        · exact absurd hother (hnone found')
        · simpa using hfirst other found' (foundAt_cons.1 hother).2
      · rintro ⟨_ | ⟨d, before⟩, hfound, hfirst⟩
        · exact absurd hfound (hnone found)
        · refine ⟨before, (foundAt_cons.1 hfound).2, fun other found' hother => ?_⟩
          simpa using hfirst (c :: other) found' (foundAt_cons.2 ⟨rfl, hother⟩)

/-- A search finds something if there is something anywhere. -/
theorem leftmost?_eq_none_iff :
    leftmost? take text = none ↔ ∀ before found, ¬ FoundAt take text before found := by
  induction text with
  | nil =>
    rw [leftmost?]
    constructor
    · rintro hhere (_ | ⟨d, before⟩) found
      · simp [foundAt_nil, hhere]
      · exact not_foundAt_nil_cons
    · intro h
      simpa [foundAt_nil, Option.eq_none_iff_forall_ne_some] using h []
  | cons c text ih =>
    rw [leftmost?, Option.or_eq_none_iff, ih]
    constructor
    · rintro ⟨hhere, hlater⟩ (_ | ⟨d, before⟩) found
      · simp [foundAt_nil, hhere]
      · exact fun hfound => hlater before found (foundAt_cons.1 hfound).2
    · intro h
      refine ⟨?_, fun before found hfound => h (c :: before) found (foundAt_cons.2 ⟨rfl, hfound⟩)⟩
      simpa [foundAt_nil, Option.eq_none_iff_forall_ne_some] using h []

end Leftmost

/-! ## Three numbers -/

section Numbers

variable {text rest digits after : Text} {numbers : Text × Text × Text}

/-- One or more digits. -/
def AreDigits (digits : Text) : Prop :=
  digits ≠ [] ∧ ∀ c ∈ digits, Text.isDigit c = true

/-- A text that does not begin with a digit. -/
def NoDigitFirst (text : Text) : Prop :=
  ∀ c ∈ text.head?, Text.isDigit c = false

/-- Each of three numbers is written in digits. -/
structure AreNumbers (numbers : Text × Text × Text) : Prop where
  major : AreDigits numbers.1
  minor : AreDigits numbers.2.1
  patch : AreDigits numbers.2.2

theorem noDigitFirst_cons {c : Char} (hc : Text.isDigit c = false) (text : Text) :
    NoDigitFirst (c :: text) := by
  simpa [NoDigitFirst] using hc

/-- Digits in front of what is no digit are all that is taken. -/
theorem takeWhile_append_of_noDigitFirst (hdigits : ∀ c ∈ digits, Text.isDigit c = true)
    (hrest : NoDigitFirst rest) : (digits ++ rest).takeWhile Text.isDigit = digits := by
  rw [List.takeWhile_append_of_pos hdigits]
  cases rest with
  | nil => simp
  | cons c rest => rw [List.takeWhile_cons_of_neg (by simp [hrest c rfl]), List.append_nil]

theorem noDigitFirst_dropWhile (text : Text) : NoDigitFirst (text.dropWhile Text.isDigit) := by
  intro c hc
  have hhead := List.head?_dropWhile_not Text.isDigit text
  rw [Option.mem_def.1 hc] at hhead
  simpa using hhead

/-- Digits are taken all at once. -/
theorem takeDigits?_eq_some_iff :
    takeDigits? text = some (digits, rest) ↔
      text = digits ++ rest ∧ AreDigits digits ∧ NoDigitFirst rest := by
  constructor
  · intro h
    unfold takeDigits? at h
    split at h
    · cases h
    · next hne =>
      obtain ⟨rfl, rfl⟩ := Prod.mk.inj (Option.some.inj h)
      have hdigits : AreDigits (text.takeWhile Text.isDigit) :=
        ⟨hne, fun c hc => List.mem_takeWhile_imp hc⟩
      exact ⟨List.takeWhile_append_dropWhile.symm, hdigits, noDigitFirst_dropWhile text⟩
  · rintro ⟨rfl, ⟨hne, hdigits⟩, hrest⟩
    have htake := takeWhile_append_of_noDigitFirst hdigits hrest
    have hdrop : (digits ++ rest).dropWhile Text.isDigit = rest := by
      have hwhole := List.takeWhile_append_dropWhile (p := Text.isDigit) (l := digits ++ rest)
      rw [htake] at hwhole
      exact List.append_cancel_left hwhole
    rw [takeDigits?, htake, hdrop, if_neg hne]

theorem afterDot?_eq_some_iff : afterDot? text = some rest ↔ text = '.' :: rest := by
  unfold afterDot?
  split
  · simp
  · next hdot =>
    simp only [reduceCtorEq, false_iff]
    exact hdot rest

/-- Three numbers are taken where they are written, with all digits of the last. -/
theorem numbers?_eq_some_iff :
    numbers? text = some numbers ↔
      AreNumbers numbers ∧ ∃ after, text = dotted numbers ++ after ∧ NoDigitFirst after := by
  obtain ⟨major, minor, patch⟩ := numbers
  constructor
  · intro h
    simp only [numbers?, Option.bind_eq_bind, Option.bind_eq_some_iff, Prod.exists,
      takeDigits?_eq_some_iff, afterDot?_eq_some_iff, Option.some.injEq, Prod.mk.injEq] at h
    obtain ⟨_, _, ⟨rfl, hmajor, -⟩, _, rfl, _, _, ⟨rfl, hminor, -⟩, _, rfl, _, after,
      ⟨rfl, hpatch, hafter⟩, rfl, rfl, rfl⟩ := h
    exact ⟨⟨hmajor, hminor, hpatch⟩, after, by simp [dotted], hafter⟩
  · rintro ⟨⟨hmajor, hminor, hpatch⟩, after, rfl, hafter⟩
    -- A dot is no digit, so each of the first two numbers ends in front of its dot.
    have hdot (rest : Text) : NoDigitFirst ('.' :: rest) := noDigitFirst_cons (by decide) rest
    have hfirst : takeDigits? (dotted (major, minor, patch) ++ after)
        = some (major, '.' :: (minor ++ '.' :: (patch ++ after))) :=
      takeDigits?_eq_some_iff.2 ⟨by simp [dotted], hmajor, hdot _⟩
    have hsecond : takeDigits? (minor ++ '.' :: (patch ++ after))
        = some (minor, '.' :: (patch ++ after)) :=
      takeDigits?_eq_some_iff.2 ⟨rfl, hminor, hdot _⟩
    have hthird : takeDigits? (patch ++ after) = some (patch, after) :=
      takeDigits?_eq_some_iff.2 ⟨rfl, hpatch, hafter⟩
    simp [numbers?, hfirst, hsecond, hthird, afterDot?]

end Numbers

/-! ## Versions behind a mark -/

section Mark

variable {mark first second text before version rest after : Text} {numbers : Text × Text × Text}

/-- What is behind a mark is what is left of the text if the mark comes off in some case. -/
theorem afterMark?_eq_some_iff :
    afterMark? mark text = some rest ↔
      ∃ written, written.map foldCase = mark ∧ text = written ++ rest := by
  induction mark generalizing text with
  | nil => simp [afterMark?]
  | cons m mark ih =>
    cases text with
    | nil =>
      simp only [afterMark?, reduceCtorEq, false_iff]
      rintro ⟨written, hwritten, hnil⟩
      obtain rfl : written = [] := (List.append_eq_nil_iff.1 hnil.symm).1
      cases hwritten
    | cons c text =>
      rw [afterMark?]
      split
      · next hc =>
        rw [ih]
        constructor
        · rintro ⟨written, rfl, rfl⟩
          exact ⟨c :: written, by rw [List.map_cons, hc], rfl⟩
        · rintro ⟨_ | ⟨d, written⟩, hwritten, htext⟩
          · cases hwritten
          · exact ⟨written, (List.cons.inj hwritten).2, (List.cons.inj htext).2⟩
      · next hc =>
        simp only [reduceCtorEq, false_iff]
        rintro ⟨_ | ⟨d, written⟩, hwritten, htext⟩
        · cases hwritten
        · rw [(List.cons.inj htext).1] at hc
          exact hc (List.cons.inj hwritten).1

/-- Behind `before`, a text has a mark in some case, directly behind it three numbers with dots
between them, and then `after`. -/
def OccursAt (mark text before : Text) (numbers : Text × Text × Text) (after : Text) : Prop :=
  AreNumbers numbers ∧ ∃ written, written.map foldCase = mark ∧
    text = before ++ (written ++ (dotted numbers ++ after))

/-- The version that a text has directly behind a mark in some case, which is itself behind
`before`. All digits of its last number belong to it. -/
def StandsAt (mark text before version : Text) : Prop :=
  ∃ numbers after, OccursAt mark text before numbers after ∧ NoDigitFirst after ∧
    version = dotted numbers

/-- A text that ends in a mark, in some case. -/
def EndsIn (mark text : Text) : Prop :=
  ∃ front written, written.map foldCase = mark ∧ text = front ++ written

/-- Wherever numbers occur, a version stands: the last number goes on for all digits there are. -/
theorem exists_standsAt_of_occursAt (h : OccursAt mark text before numbers after) :
    ∃ version, StandsAt mark text before version := by
  obtain ⟨major, minor, patch⟩ := numbers
  obtain ⟨⟨hmajor, hminor, hpatch⟩, written, hwritten, rfl⟩ := h
  let whole : Text × Text × Text := (major, minor, patch ++ after.takeWhile Text.isDigit)
  have hwhole : AreDigits whole.2.2 := by
    refine ⟨List.append_ne_nil_of_left_ne_nil hpatch.1 _, fun c hc => ?_⟩
    obtain hc | hc := List.mem_append.1 hc
    · exact hpatch.2 c hc
    · exact List.mem_takeWhile_imp hc
  refine ⟨dotted whole, whole, after.dropWhile Text.isDigit,
    ⟨⟨hmajor, hminor, hwhole⟩, written, hwritten, ?_⟩, noDigitFirst_dropWhile after, rfl⟩
  simp [dotted, whole, List.takeWhile_append_dropWhile]

/-- A version stands where the search for its mark takes its numbers. -/
theorem standsAt_iff :
    StandsAt mark text before version ↔
      ∃ numbers, FoundAt (fun here => (afterMark? mark here).bind numbers?) text before numbers ∧
        dotted numbers = version := by
  simp only [FoundAt, Option.bind_eq_some_iff, afterMark?_eq_some_iff, numbers?_eq_some_iff]
  constructor
  · rintro ⟨numbers, after, ⟨hnumbers, written, hwritten, rfl⟩, hafter, rfl⟩
    exact ⟨numbers, ⟨_, rfl, _, ⟨written, hwritten, rfl⟩, hnumbers, after, rfl, hafter⟩, rfl⟩
  · rintro ⟨numbers, ⟨_, rfl, _, ⟨written, hwritten, rfl⟩, hnumbers, after, rfl, hafter⟩, rfl⟩
    exact ⟨numbers, after, ⟨hnumbers, written, hwritten, rfl⟩, hafter, rfl⟩

/-- With a mark, the first version that stands behind it is found. -/
theorem afterMarkIn?_eq_some_iff :
    afterMarkIn? mark text = some version ↔
      ∃ before, IsFirst (StandsAt mark text) before version := by
  simp only [afterMarkIn?, Option.map_eq_some_iff, leftmost?_eq_some_iff]
  constructor
  · rintro ⟨numbers, ⟨before, hfound, hfirst⟩, rfl⟩
    refine ⟨before, standsAt_iff.2 ⟨numbers, hfound, rfl⟩, fun other version hother => ?_⟩
    obtain ⟨others, hother, -⟩ := standsAt_iff.1 hother
    exact hfirst other others hother
  · rintro ⟨before, hstands, hfirst⟩
    obtain ⟨numbers, hfound, rfl⟩ := standsAt_iff.1 hstands
    refine ⟨numbers, ⟨before, hfound, fun other others hother => ?_⟩, rfl⟩
    exact hfirst other (dotted others) (standsAt_iff.2 ⟨others, hother, rfl⟩)

/-- With a mark, nothing is found only if no version stands behind it anywhere. -/
theorem afterMarkIn?_eq_none_iff :
    afterMarkIn? mark text = none ↔ ∀ before version, ¬ StandsAt mark text before version := by
  rw [afterMarkIn?, Option.map_eq_none_iff, leftmost?_eq_none_iff]
  constructor
  · intro h before version hstands
    obtain ⟨numbers, hfound, -⟩ := standsAt_iff.1 hstands
    exact h before numbers hfound
  · intro h before numbers hfound
    exact h before (dotted numbers) (standsAt_iff.2 ⟨numbers, hfound, rfl⟩)

/-! ## Marks that end in a mark -/

/-- Behind a longer mark, a version stands where it stands behind the end of it and the rest of
the mark is in front. -/
theorem standsAt_append :
    StandsAt (first ++ second) text before version ↔
      ∃ written, written.map foldCase = first ∧
        StandsAt second text (before ++ written) version := by
  constructor
  · rintro ⟨numbers, after, ⟨hnumbers, written, hwritten, rfl⟩, hafter, rfl⟩
    obtain ⟨front, back, rfl, hfront, hback⟩ := List.map_eq_append_iff.1 hwritten
    exact ⟨front, hfront, numbers, after, ⟨hnumbers, back, hback, by simp⟩, hafter, rfl⟩
  · rintro ⟨front, hfront, numbers, after, ⟨hnumbers, back, hback, rfl⟩, hafter, rfl⟩
    refine ⟨numbers, after, ⟨hnumbers, front ++ back, ?_, by simp⟩, hafter, rfl⟩
    rw [List.map_append, hfront, hback]

theorem length_eq_of_map_foldCase {written other : Text}
    (h : written.map foldCase = other.map foldCase) : written.length = other.length := by
  simpa using congrArg List.length h

/-- The first version behind a longer mark is the first of those behind the end of the mark that
have the rest of it in front. -/
theorem exists_isFirst_append :
    (∃ before, IsFirst (StandsAt (first ++ second) text) before version) ↔
      ∃ before, IsFirst
        (fun before version => StandsAt second text before version ∧ EndsIn first before)
        before version := by
  constructor
  · rintro ⟨before, hstands, hfirst⟩
    obtain ⟨written, hwritten, hstands⟩ := standsAt_append.1 hstands
    refine ⟨before ++ written, ⟨hstands, before, written, hwritten, rfl⟩, ?_⟩
    rintro _ version' ⟨hother, front, written', hwritten', rfl⟩
    have hle : before.length ≤ front.length :=
      hfirst front version' (standsAt_append.2 ⟨written', hwritten', hother⟩)
    -- However the front of the mark is written, it is as long, so the order of places stays.
    have hlength := length_eq_of_map_foldCase (hwritten.trans hwritten'.symm)
    simp only [List.length_append]
    omega
  · rintro ⟨_, ⟨hstands, before, written, hwritten, rfl⟩, hfirst⟩
    refine ⟨before, standsAt_append.2 ⟨written, hwritten, hstands⟩, fun other version' hother => ?_⟩
    obtain ⟨written', hwritten', hother⟩ := standsAt_append.1 hother
    have hle := hfirst (other ++ written') version' ⟨hother, other, written', hwritten', rfl⟩
    have hlength := length_eq_of_map_foldCase (hwritten.trans hwritten'.symm)
    simp only [List.length_append] at hle
    omega

/-- No version is behind a longer mark if none with the rest of the mark in front is behind its
end. -/
theorem afterMarkIn?_append_eq_none_iff :
    afterMarkIn? (first ++ second) text = none ↔
      ∀ before version, StandsAt second text before version → ¬ EndsIn first before := by
  rw [afterMarkIn?_eq_none_iff]
  constructor
  · rintro h _ version hstands ⟨before, written, hwritten, rfl⟩
    exact h before version (standsAt_append.2 ⟨written, hwritten, hstands⟩)
  · intro h before version hstands
    obtain ⟨written, hwritten, hstands⟩ := standsAt_append.1 hstands
    exact h _ version hstands ⟨before, written, hwritten, rfl⟩

end Mark

/-! ## The version of a text -/

/-- The mark that begins with `Homebrew` ends in the mark before it, so it adds nothing. -/
theorem ofText?_eq_or (text : Text) :
    ofText? text = (afterMarkIn? "llvm version " text).or (afterMarkIn? "version " text) := by
  have hlonger : ("homebrew llvm version " : Text) = "homebrew " ++ "llvm version " := rfl
  simp only [ofText?, marks, List.findSome?_cons, List.findSome?_nil]
  cases hllvm : afterMarkIn? "llvm version " text with
  | some version => rfl
  | none =>
    have hnone : afterMarkIn? "homebrew llvm version " text = none := by
      rw [hlonger, afterMarkIn?_append_eq_none_iff]
      intro before version hstands
      exact absurd hstands (afterMarkIn?_eq_none_iff.1 hllvm before version)
    rw [hnone]
    cases afterMarkIn? "version " text <;> rfl

/-- The version of a text is the first version that stands behind `version` with `LLVM` in front of
that, and if there is none, the first behind `version` at all. There is no version only if three
numbers are nowhere behind `version`, and the mark with `Homebrew` could be left out. -/
theorem ofText?_spec (text : Text) :
    (ofText? text = none ↔
      ∀ before numbers after, ¬ OccursAt "version " text before numbers after) ∧
    (∀ version, ofText? text = some version ↔
      (∃ before, IsFirst
        (fun before version => StandsAt "version " text before version ∧ EndsIn "llvm " before)
        before version) ∨
      (∀ before other, StandsAt "version " text before other → ¬ EndsIn "llvm " before) ∧
        ∃ before, IsFirst (StandsAt "version " text) before version) ∧
    ofText? text =
      (marks.erase "homebrew llvm version ").findSome? fun mark => afterMarkIn? mark text := by
  have hllvm : ("llvm version " : Text) = "llvm " ++ "version " := rfl
  refine ⟨?_, fun version => ?_, ?_⟩
  · rw [ofText?_eq_or, Option.or_eq_none_iff, hllvm, afterMarkIn?_append_eq_none_iff,
      afterMarkIn?_eq_none_iff]
    constructor
    · rintro ⟨-, hnone⟩ before numbers after hoccurs
      obtain ⟨version, hstands⟩ := exists_standsAt_of_occursAt hoccurs
      exact hnone before version hstands
    · intro hnone
      have hno : ∀ before version, ¬ StandsAt "version " text before version := by
        rintro before version ⟨numbers, after, hoccurs, -⟩
        exact hnone before numbers after hoccurs
      exact ⟨fun before version hstands => absurd hstands (hno before version), hno⟩
  · rw [ofText?_eq_or, Option.or_eq_some_iff, hllvm, afterMarkIn?_append_eq_none_iff,
      afterMarkIn?_eq_some_iff, afterMarkIn?_eq_some_iff, exists_isFirst_append]
  · have hmarks :
        marks.erase "homebrew llvm version " = (["llvm version ", "version "] : List Text) := by
      decide
    simp only [ofText?_eq_or, hmarks, List.findSome?_cons, List.findSome?_nil]
    cases afterMarkIn? "llvm version " text <;> cases afterMarkIn? "version " text <;> rfl

/-- A later version of LLVM comes before an earlier one of something else. -/
example :
    ofText? "clang version 9.9.9 (Homebrew LLVM version 18.1.80)" = some "18.1.80".toList := by
  decide

end Version

end EngineUpkeep
