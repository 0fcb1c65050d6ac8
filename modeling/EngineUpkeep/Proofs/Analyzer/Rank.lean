import EngineUpkeep.Proofs.Analyzer.Version

/-!
# The ranks of installations

Homebrew keeps an installation of the analyzer below a directory for its formula, `llvm` for the
current one and `llvm@18` for an older one, in a directory for its version.

* `rank_path`: an installation of `llvm` is ranked by all three numbers of its version, one of
  `llvm@18` by the first alone.
* `number_lt_number_iff`: three numbers are compared as versions are.
* `rank_lt_rank_iff`: where ranks follow versions, and where they do not.
-/

namespace EngineUpkeep

namespace Version

/-! ## Numbers in a path -/

/-- A number below a limit as it is written in ASCII digits, of which the first may be zeros. -/
structure Numeral (limit : Nat) where
  written : Text
  written_ne_nil : written ≠ []
  all_isAsciiDigit : written.all Text.isAsciiDigit = true
  value_lt : Text.asciiValue written < limit

namespace Numeral

variable {limit : Nat} (numeral : Numeral limit)

/-- The number that is written. -/
def value : Nat :=
  Text.asciiValue numeral.written

theorem areDigits : AreDigits numeral.written :=
  ⟨numeral.written_ne_nil,
    fun _ hc => Text.isDigit_of_isAsciiDigit (List.all_eq_true.1 numeral.all_isAsciiDigit _ hc)⟩

theorem notMem {c : Char} (hc : Text.isAsciiDigit c = false) : c ∉ numeral.written := by
  intro hmem
  have hdigit := List.all_eq_true.1 numeral.all_isAsciiDigit c hmem
  rw [hc] at hdigit
  cases hdigit

/-- A number with a place in a word is read as it is written. -/
theorem wordOf_written (hlimit : limit ≤ Text.wordLimit) :
    wordOf numeral.written = numeral.value := by
  have hsome : numeral.written.isEmpty = false :=
    List.isEmpty_eq_false_iff.2 numeral.written_ne_nil
  have hword : Text.asciiValue numeral.written < Text.wordLimit :=
    lt_of_lt_of_le numeral.value_lt hlimit
  rw [wordOf, Text.toWord?, hsome, numeral.all_isAsciiDigit]
  simp [hword, value]

end Numeral

/-! ## Installations -/

/-- The directories in which Homebrew keeps what it installs. -/
def cellars : List Text :=
  ["/opt/homebrew/Cellar", "/usr/local/Cellar"]

/-- An installation of the analyzer. -/
structure Installation where
  cellar : Text
  cellar_mem : cellar ∈ cellars
  /-- The installation is one of an older formula, whose name ends in the first number. -/
  isVersioned : Bool
  major : Numeral 1000
  minor : Numeral 100
  patch : Numeral 100

namespace Installation

variable (i : Installation)

/-- The version as it is written. -/
def written : Text × Text × Text :=
  (i.major.written, i.minor.written, i.patch.written)

/-- The part of the path behind the name `llvm`. -/
def behindName : Text :=
  (if i.isVersioned then '@' :: i.major.written else []) ++
    '/' :: (dotted i.written ++ "/bin/clang-tidy")

/-- The path of the analyzer. -/
def path : Text :=
  i.cellar ++ ("/llvm" ++ i.behindName)

/-- The numbers of the version. -/
def numbers : List Nat :=
  [i.major.value, i.minor.value, i.patch.value]

/-- The numbers of the version in one. -/
def number : Nat :=
  i.major.value * 10000 + i.minor.value * 100 + i.patch.value

theorem major_le_number : i.major.value ≤ i.number := by
  unfold number
  omega

/-- The three numbers in one have a place in a word. -/
theorem number_lt_wordLimit : i.number < Text.wordLimit := by
  have hmajor := i.major.value_lt
  have hminor := i.minor.value_lt
  have hpatch := i.patch.value_lt
  simp only [number, Numeral.value, Text.wordLimit]
  omega

theorem areNumbers : AreNumbers i.written :=
  ⟨i.major.areDigits, i.minor.areDigits, i.patch.areDigits⟩

theorem notMem_dotted {c : Char} (hc : Text.isAsciiDigit c = false) (hdot : c ≠ '.') :
    c ∉ dotted i.written := by
  simp [dotted, written, Numeral.notMem, hc, hdot]

end Installation

/-! ## What is found in a path -/

section Leftmost

variable {α : Type} {take : Text → Option α} {front text : Text}

theorem leftmost?_append_of_forall_mem (h : ∀ c ∈ front, ∀ rest, take (c :: rest) = none) :
    leftmost? take (front ++ text) = leftmost? take text := by
  induction front with
  | nil => rfl
  | cons c front ih =>
    obtain ⟨hc, hfront⟩ := List.forall_mem_cons.1 h
    rw [List.cons_append, leftmost?, hc, Option.none_or, ih hfront]

end Leftmost

theorem formulaMajor?_cons {c : Char} (hc : c ≠ 'l') (rest : Text) :
    formulaMajor? (c :: rest) = none := by
  have hpart : afterPart? "llvm" (c :: rest) = none := if_neg hc
  rw [formulaMajor?, hpart]
  rfl

/-- No directory in which something is installed is taken for the formula. -/
theorem leftmost?_formulaMajor?_cellar {cellar : Text} (h : cellar ∈ cellars) (text : Text) :
    leftmost? formulaMajor? (cellar ++ ("/llvm" ++ text)) =
      leftmost? formulaMajor? ("llvm" ++ text) := by
  simp only [cellars, List.mem_cons, List.not_mem_nil, or_false] at h
  -- The search goes through either directory without a look at the text behind it.
  obtain rfl | rfl := h <;> rfl

theorem leftmost?_directoryNumbers?_cellar {cellar : Text} (h : cellar ∈ cellars) (text : Text) :
    leftmost? directoryNumbers? (cellar ++ ("/llvm" ++ text)) =
      leftmost? directoryNumbers? text := by
  simp only [cellars, List.mem_cons, List.not_mem_nil, or_false] at h
  obtain rfl | rfl := h <;> rfl

/-! ## Ranks -/

namespace Installation

variable (i : Installation)

/-- An installation of an older formula is ranked by the number in the name of the formula. -/
theorem rank_path_of_isVersioned (h : i.isVersioned = true) : rank i.path = i.major.value := by
  have hmajor : formulaMajor? ("llvm" ++ i.behindName) = some i.major.written := by
    have htake : takeDigits? (i.major.written ++ '/' :: (dotted i.written ++ "/bin/clang-tidy"))
        = some (i.major.written, '/' :: (dotted i.written ++ "/bin/clang-tidy")) :=
      takeDigits?_eq_some_iff.2 ⟨rfl, i.major.areDigits, noDigitFirst_cons (by decide) _⟩
    rw [behindName, h]
    show (takeDigits? (i.major.written ++ '/' :: (dotted i.written ++ "/bin/clang-tidy"))).bind
      (fun taken => some taken.1) = some i.major.written
    rw [htake]
    rfl
  have hfound : leftmost? formulaMajor? i.path = some i.major.written := by
    rw [path, leftmost?_formulaMajor?_cellar i.cellar_mem]
    show (formulaMajor? ("llvm" ++ i.behindName)).or _ = _
    rw [hmajor, Option.some_or]
  rw [rank, hfound]
  exact i.major.wordOf_written (by decide)

/-- Nothing in the path of an installation of `llvm` is taken for a number in a name. -/
theorem leftmost?_formulaMajor?_path (h : i.isVersioned = false) :
    leftmost? formulaMajor? i.path = none := by
  have hl : 'l' ∉ '/' :: dotted i.written :=
    List.not_mem_cons_of_ne_of_not_mem (by decide) (i.notMem_dotted (by decide) (by decide))
  rw [path, leftmost?_formulaMajor?_cellar i.cellar_mem, behindName, h]
  calc leftmost? formulaMajor? ("llvm" ++ ('/' :: dotted i.written ++ "/bin/clang-tidy"))
      = leftmost? formulaMajor? ('/' :: dotted i.written ++ "/bin/clang-tidy") := rfl
    _ = leftmost? formulaMajor? "/bin/clang-tidy" :=
      leftmost?_append_of_forall_mem fun c hc rest =>
        formulaMajor?_cons (fun heq => hl (heq ▸ hc)) rest
    _ = none := by decide

/-- An installation of `llvm` is ranked by its version. -/
theorem rank_path_of_not_isVersioned (h : i.isVersioned = false) : rank i.path = i.number := by
  have hnumbers : numbers? (dotted i.written ++ "/bin/clang-tidy") = some i.written :=
    numbers?_eq_some_iff.2 ⟨i.areNumbers, _, rfl, noDigitFirst_cons (by decide) _⟩
  have hfound : leftmost? directoryNumbers? i.path = some i.written := by
    rw [path, leftmost?_directoryNumbers?_cellar i.cellar_mem, behindName, h]
    show (numbers? (dotted i.written ++ "/bin/clang-tidy")).or _ = _
    rw [hnumbers, Option.some_or]
  rw [rank, i.leftmost?_formulaMajor?_path h, hfound]
  show (wordOf i.major.written * 10000 + wordOf i.minor.written * 100 + wordOf i.patch.written)
    % Text.wordLimit = i.number
  rw [i.major.wordOf_written (by decide), i.minor.wordOf_written (by decide),
    i.patch.wordOf_written (by decide)]
  exact Nat.mod_eq_of_lt i.number_lt_wordLimit

/-- The rank of an installation, by the formula that it is one of. -/
theorem rank_path : rank i.path = if i.isVersioned then i.major.value else i.number := by
  split
  · next h => exact i.rank_path_of_isVersioned h
  · next h => exact i.rank_path_of_not_isVersioned (by simpa using h)

/-- Three numbers in one are compared as versions are: the first counts, then the second, then the
last. -/
theorem number_lt_number_iff (first second : Installation) :
    first.number < second.number ↔ first.numbers < second.numbers := by
  have hminor := first.minor.value_lt
  have hpatch := first.patch.value_lt
  have hminor' := second.minor.value_lt
  have hpatch' := second.patch.value_lt
  simp only [numbers, number, Numeral.value, List.cons_lt_cons_iff, List.not_lt_nil, and_false,
    or_false] at *
  omega

end Installation

/-- Of two installations, the one with the higher first number is ranked higher, unless it is one
of an older formula, whose rank is this number, and the other is one of `llvm`, whose rank is all
its numbers in one, and that is as high. That is so whenever the other has a first number other
than zero. Two installations of `llvm` are ranked by their versions. -/
theorem rank_lt_rank_iff (first second : Installation) :
    (second.major.value < first.major.value →
      (rank second.path < rank first.path ↔
        ¬ (first.isVersioned = true ∧ second.isVersioned = false ∧
          first.major.value ≤ second.number))) ∧
    (first.isVersioned = true → second.isVersioned = false → second.major.value ≠ 0 →
      rank first.path < rank second.path) ∧
    (first.isVersioned = false → second.isVersioned = false →
      (rank first.path < rank second.path ↔ first.numbers < second.numbers)) := by
  refine ⟨fun hlt => ?_, fun hfirst hsecond hzero => ?_, fun hfirst hsecond => ?_⟩
  · have hnumber : second.number < first.number :=
      (Installation.number_lt_number_iff second first).2 (List.cons_lt_cons_iff.2 (.inl hlt))
    have hmajor : second.major.value < first.number := lt_of_lt_of_le hlt first.major_le_number
    rw [first.rank_path, second.rank_path]
    cases first.isVersioned with
    | false =>
      cases second.isVersioned with
      | false => simpa using hnumber
      | true => simpa using hmajor
    | true =>
      cases second.isVersioned with
      | false => simp -- The one case in which the two ranks are not made alike.
      | true => simpa using hlt
  · rw [first.rank_path_of_isVersioned hfirst, second.rank_path_of_not_isVersioned hsecond]
    have hmajor := first.major.value_lt
    simp only [Installation.number, Numeral.value] at *
    omega
  · rw [first.rank_path_of_not_isVersioned hfirst, second.rank_path_of_not_isVersioned hsecond]
    exact Installation.number_lt_number_iff first second

/-- The analyzer of LLVM 18 is ranked below the one of LLVM 17 if 18 is in the name of its
formula. -/
theorem rank_llvm18_lt_rank_llvm17 :
    ∃ first second : Installation,
      first.path = "/opt/homebrew/Cellar/llvm@18/18.1.8/bin/clang-tidy".toList ∧
      second.path = "/opt/homebrew/Cellar/llvm/17.0.6/bin/clang-tidy".toList ∧
      second.major.value < first.major.value ∧ rank first.path < rank second.path ∧
      rank first.path = 18 ∧ rank second.path = 170006 := by
  let first : Installation :=
    { cellar := "/opt/homebrew/Cellar", cellar_mem := by decide, isVersioned := true
      major := ⟨"18", by decide, by decide, by decide⟩
      minor := ⟨"1", by decide, by decide, by decide⟩
      patch := ⟨"8", by decide, by decide, by decide⟩ }
  let second : Installation :=
    { cellar := "/opt/homebrew/Cellar", cellar_mem := by decide, isVersioned := false
      major := ⟨"17", by decide, by decide, by decide⟩
      minor := ⟨"0", by decide, by decide, by decide⟩
      patch := ⟨"6", by decide, by decide, by decide⟩ }
  exact ⟨first, second, by decide, by decide, by decide, by decide, by decide, by decide⟩

end Version

end EngineUpkeep
