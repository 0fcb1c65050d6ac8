import EngineUpkeep.CommandLine.Analyze
import EngineUpkeep.Proofs.Text.Decimal
import Mathlib.Data.Bool.Basic

/-!
# Writing the command line of an analysis

What a command line says can be written as options in any order, each in its long or its short form
and with its value in the next word (`Writing`), followed by the words behind the options. Reading
such a command line gives back what was written (`read_wordsOf`). The two dashes in front of the
words behind the options are needed only if the first of these words begins with a dash.

A value is looked at later than it is read. So what is carried from option to option is what a draft
says when its value has been looked at (`Draft.settle`), and it does not matter when that happens.
-/

namespace EngineUpkeep

namespace CommandLine

namespace Analyze

/-! ## Options in writing -/

/-- The long name of an option. -/
def Key.longName : Key → Text
  | .valued .buildDirectory => "build-dir"
  | .valued .include => "include"
  | .valued .exclude => "exclude"
  | .valued .jobs => "jobs"
  | .valued .projectRoot => "project-root"
  | .flag .fix => "fix"
  | .flag .verbose => "verbose"
  | .flag .withoutPlugin => "no-plugin"
  | .flag .json => "json"
  | .help => "help"
  | .version => "version"

/-- The letter of an option, if it has one. -/
def Key.letter? : Key → Option Char
  | .valued .buildDirectory => some 'b'
  | .valued .include => some 'i'
  | .valued .exclude => some 'e'
  | .valued .jobs => some 'j'
  | .flag .verbose => some 'v'
  | .help => some 'h'
  | .version => some 'V'
  | .valued .projectRoot | .flag .fix | .flag .withoutPlugin | .flag .json => none

/-- The words for an option: two dashes and its name, and one dash and its letter. -/
def Key.spellings (key : Key) : List Text :=
  ('-' :: '-' :: key.longName) :: key.letter?.toList.map fun letter => ['-', letter]

/-- An option that is given, with its value if it has one. -/
inductive Setting where
  /-- An option with its value. -/
  | value (option : ValueOption) (text : Text)
  /-- An option without value. -/
  | flag (flag : Flag)
deriving DecidableEq, Repr

namespace Setting

/-- The option that is given. -/
def key : Setting → Key
  | .value option _ => .valued option
  | .flag raised => .flag raised

/-- The words behind the option. -/
def values : Setting → List Text
  | .value _ text => [text]
  | .flag _ => []

/-- The value for an option, if it is this one that is given. -/
def valueFor? (option : ValueOption) : Setting → Option Text
  | .value other text => if other = option then some text else none
  | .flag _ => none

end Setting

/-- A setting in one of its forms. -/
structure Writing where
  /-- What is written. -/
  setting : Setting
  /-- The word for the option. -/
  word : Text
  /-- It is one of the words for this option. -/
  mem_spellings : word ∈ setting.key.spellings

/-- The words of settings, in order. -/
def wordsOf (writings : List Writing) : List Text :=
  writings.flatMap fun writing => writing.word :: writing.setting.values

/-! ## What is said -/

namespace Arguments

/-- The values of an option, as they are written. -/
def valuesOf (arguments : Arguments) : ValueOption → List Text
  | .buildDirectory => arguments.buildDirectory?.toList.map Path.text
  | .include => arguments.includes
  | .exclude => arguments.excludes
  | .jobs => arguments.jobs?.toList.map Text.ofNat
  | .projectRoot => arguments.projectRoot?.toList.map Path.text

/-- An option without value is given. -/
def raises (arguments : Arguments) : Flag → Bool
  | .fix => arguments.fix
  | .verbose => arguments.verbose
  | .withoutPlugin => arguments.withoutPlugin
  | .json => arguments.json

/-- The text can be the value of any option but of the number of workers. -/
def IsValue (value : Text) : Prop :=
  value ≠ [] ∧ value.head? ≠ some '-'

/-- Whether a text can be a value is decidable. -/
instance (value : Text) : Decidable (IsValue value) := by
  unfold IsValue
  infer_instance

/-- All values can be written as words behind their options, and the number of workers is a word. -/
structure IsWritable (arguments : Arguments) : Prop where
  /-- A value has a character and does not look like an option. -/
  isValue : ∀ option ≠ .jobs, ∀ value ∈ arguments.valuesOf option, IsValue value
  /-- The number of workers is not too large. -/
  jobs_lt : ∀ count ∈ arguments.jobs?, count < Text.wordLimit

/-- Settings say what the options of a command line say: each option has its values, in order, and
each option without value is given once or not at all. -/
structure AreSaidBy (arguments : Arguments) (settings : List Setting) : Prop where
  /-- The values of an option are those that it is given. -/
  values_eq : ∀ option, settings.filterMap (Setting.valueFor? option) = arguments.valuesOf option
  /-- An option without value is given once if it counts. -/
  count_eq : ∀ flag, settings.count (.flag flag) = (arguments.raises flag).toNat

end Arguments

/-! ## One option -/

theorem roleOf_longName (key : Key) : roleOf ('-' :: '-' :: key.longName) = .key key := by
  rcases key with (_ | _ | _ | _ | _) | (_ | _ | _ | _) | _ | _ <;> rfl

theorem shortKey?_letter {key : Key} {letter : Char} (h : key.letter? = some letter) :
    shortKey? letter = some key := by
  rcases key with (_ | _ | _ | _ | _) | (_ | _ | _ | _) | _ | _ <;> cases h <;> rfl

theorem roleOf_letter {key : Key} {letter : Char} (h : key.letter? = some letter) :
    roleOf ['-', letter] = .letters [letter] := by
  rcases key with (_ | _ | _ | _ | _) | (_ | _ | _ | _) | _ | _ <;> cases h <;> rfl

theorem takeLetters_letter (draft : Draft) {key : Key} {letter : Char}
    (h : key.letter? = some letter) : draft.takeLetters [letter] = draft.take key := by
  rw [Draft.takeLetters, shortKey?_letter h]
  cases key with
  | valued option => exact if_pos rfl
  | flag raised => exact bind_pure (draft.take (.flag raised))
  | help => exact bind_pure (draft.take .help)
  | version => exact bind_pure (draft.take .version)

/-- A word for an option is read as the option. -/
theorem readFrom_of_mem_spellings {word : Text} {key : Key} (h : word ∈ key.spellings)
    {draft next : Draft} (htake : draft.take key = .ok next) (rest : List Text) :
    readFrom draft (word :: rest) = readFrom next rest := by
  obtain rfl | hletter := List.mem_cons.1 h
  · rw [readFrom, roleOf_longName]
    exact congrArg (· >>= fun next => readFrom next rest) htake
  · obtain ⟨letter, hmem, rfl⟩ := List.mem_map.1 hletter
    have hkey : key.letter? = some letter := Option.mem_toList.1 hmem
    have hletters : draft.takeLetters [letter] = .ok next :=
      (takeLetters_letter draft hkey).trans htake
    rw [readFrom, roleOf_letter hkey]
    exact congrArg (· >>= fun next => readFrom next rest) hletters

/-- A word without a dash at its front is no option. -/
theorem roleOf_of_head?_ne {word : Text} (h : word.head? ≠ some '-') : roleOf word = .plain := by
  have hshape : shapeOf word = .plain := by
    rcases word with _ | ⟨c, rest⟩
    · rfl
    · unfold shapeOf
      split
      all_goals simp_all
  rw [roleOf, hshape]

/-! ## Options, one after the other -/

/-- Gives one option. -/
def Arguments.give (arguments : Arguments) : Setting → Except Refusal Arguments
  | .value option text => arguments.set option text
  | .flag raised => arguments.raise raised

section Read

variable {draft : Draft} {said next all : Arguments}

/-- The words of an option add it to what a draft says. -/
theorem exists_readFrom_writing {writing : Writing} (hsettle : draft.settle = .ok said)
    (hgive : said.give writing.setting = .ok next)
    (hvalues : ∀ value ∈ writing.setting.values, value.head? ≠ some '-') (rest : List Text) :
    ∃ draft' : Draft, draft'.settle = .ok next ∧
      readFrom draft (writing.word :: writing.setting.values ++ rest) = readFrom draft' rest := by
  obtain ⟨setting, word, hword⟩ := writing
  cases setting with
  | flag raised =>
    refine ⟨⟨next, none⟩, rfl, readFrom_of_mem_spellings hword ?_ rest⟩
    have hraise : said.raise raised = .ok next := hgive
    rw [Setting.key, Draft.take, hsettle]
    show (said.raise raised >>= fun raised => pure (Draft.mk raised none)) = _
    rw [hraise]
    rfl
  | value option text =>
    -- The value waits until the next word is read.
    refine ⟨⟨said, some (option, some text)⟩, hgive, ?_⟩
    have htake : draft.take (.valued option) = .ok ⟨said, some (option, none)⟩ := by
      rw [Draft.take, hsettle]
      rfl
    have hplain : roleOf text = .plain :=
      roleOf_of_head?_ne (hvalues text (List.mem_singleton_self text))
    rw [List.cons_append, readFrom_of_mem_spellings hword htake]
    show readFrom _ (text :: rest) = _
    rw [readFrom, hplain]

/-- So do the words of several options, one after the other. -/
theorem exists_readFrom_wordsOf {writings : List Writing} (hsettle : draft.settle = .ok said)
    (hgive : (writings.map (·.setting)).foldlM Arguments.give said = .ok all)
    (hvalues : ∀ writing ∈ writings, ∀ value ∈ writing.setting.values, value.head? ≠ some '-')
    (rest : List Text) :
    ∃ draft' : Draft, draft'.settle = .ok all ∧
      readFrom draft (wordsOf writings ++ rest) = readFrom draft' rest := by
  induction writings generalizing draft said with
  | nil =>
    cases hgive
    exact ⟨draft, hsettle, rfl⟩
  | cons writing writings ih =>
    rw [List.map_cons, List.foldlM_cons] at hgive
    rcases hfirst : said.give writing.setting with refusal | next
    · rw [hfirst] at hgive
      cases hgive
    rw [hfirst] at hgive
    obtain ⟨between, hbetween, hread⟩ := exists_readFrom_writing hsettle hfirst
      (hvalues writing List.mem_cons_self) (wordsOf writings ++ rest)
    obtain ⟨draft', hdraft', hreadRest⟩ := ih hbetween hgive fun other hother =>
      hvalues other (List.mem_cons_of_mem writing hother)
    refine ⟨draft', hdraft', ?_⟩
    rw [wordsOf, List.flatMap_cons, List.append_assoc]
    exact hread.trans hreadRest

/-- Behind two dashes every word is a trailing one. -/
theorem readFrom_dashes (hsettle : draft.settle = .ok said) (trailing : List Text) :
    readFrom draft (['-', '-'] :: trailing) = .ok { said with trailing } := by
  have hrole : roleOf ['-', '-'] = .dashes := rfl
  rw [readFrom, hrole]
  show (draft.settle >>= _) = _
  rw [hsettle]
  rfl

/-- Without dashes the trailing words begin with the first word that looks like no option. -/
theorem readFrom_plain {word : Text} (hsettle : draft.settle = .ok said)
    (hword : word.head? ≠ some '-') (rest : List Text) :
    readFrom draft (word :: rest) = .ok { said with trailing := word :: rest } := by
  rw [readFrom, roleOf_of_head?_ne hword]
  have hdone : (do return { ← draft.settle with trailing := word :: rest } :
      Except Refusal Arguments) = .ok { said with trailing := word :: rest } := by
    rw [hsettle]
    rfl
  -- No value is missing, since the draft says something already.
  rcases hwaiting : draft.waiting? with _ | ⟨option, _ | value⟩
  · exact hdone
  · rw [Draft.settle, hwaiting] at hsettle
    cases hsettle
  · exact hdone

end Read

/-! ## From settings to what they say -/

/-- Of something that is there at most once, nothing comes in front. -/
theorem eq_none_of_toList_map_eq {α : Type} {write : α → Text} {first last : Option α}
    {text : Text} {rest : List Text}
    (h : last.toList.map write = first.toList.map write ++ text :: rest) :
    first = none ∧ ∃ value, last = some value ∧ write value = text := by
  rcases first with _ | other <;> rcases last with _ | value
  · simp at h
  · exact ⟨rfl, value, rfl, (List.cons.inj h).1⟩
  · simp at h
  · simp at h

theorem injective_toList_map {α : Type} {write : α → Text} (h : Function.Injective write) :
    Function.Injective fun value : Option α => value.toList.map write := by
  rintro (_ | value) (_ | other) heq
  · rfl
  · cases heq
  · cases heq
  · rw [h (List.cons.inj heq).1]

theorem count?_ofNat {count : Nat} (h : count < Text.wordLimit) :
    count? (Text.ofNat count) = some count := by
  have hword : Text.toWord? (Text.ofNat count) = some count := by
    rw [Text.toWord?, Text.asciiValue_ofNat, if_pos h, if_neg]
    simpa [Text.ofNat_ne_nil] using fun _ => Text.isAsciiDigit_of_mem_ofNat
  unfold count?
  split
  · next digits hsign =>
    have hmem : '+' ∈ Text.ofNat count := hsign ▸ List.mem_cons_self
    exact absurd (Text.isAsciiDigit_of_mem_ofNat hmem) (by decide)
  · exact hword

namespace Arguments

variable {said all : Arguments}

/-- The number of workers is written as a value, too. -/
theorem head?_ne_of_mem_valuesOf (h : all.IsWritable) {option : ValueOption} {value : Text}
    (hvalue : value ∈ all.valuesOf option) : value.head? ≠ some '-' := by
  by_cases hjobs : option = .jobs
  · subst hjobs
    obtain ⟨count, -, rfl⟩ := List.mem_map.1 hvalue
    intro hhead
    have hmem : '-' ∈ Text.ofNat count := List.mem_of_mem_head? hhead
    exact absurd (Text.isAsciiDigit_of_mem_ofNat hmem) (by decide)
  · exact (h.isValue option hjobs value hvalue).2

/-- The options of a command line are determined by the values and by what is given without value.
-/
theorem eq_of_valuesOf (hvalues : ∀ option, all.valuesOf option = said.valuesOf option)
    (hraises : ∀ raised, all.raises raised = said.raises raised)
    (htrailing : all.trailing = said.trailing) : all = said := by
  have hpath : Function.Injective Path.text := fun _ _ h => congrArg Path.mk h
  have hnumber : Function.Injective Text.ofNat :=
    Function.LeftInverse.injective Text.asciiValue_ofNat
  have hbuild := injective_toList_map hpath (hvalues .buildDirectory)
  have hroot := injective_toList_map hpath (hvalues .projectRoot)
  have hjobs := injective_toList_map hnumber (hvalues .jobs)
  have hincludes : all.includes = said.includes := hvalues .include
  have hexcludes : all.excludes = said.excludes := hvalues .exclude
  have hfix : all.fix = said.fix := hraises .fix
  have hverbose : all.verbose = said.verbose := hraises .verbose
  have hplugin : all.withoutPlugin = said.withoutPlugin := hraises .withoutPlugin
  have hjson : all.json = said.json := hraises .json
  cases all
  cases said
  simp_all

/-- What is said with some settings in addition. -/
structure Extends (said : Arguments) (settings : List Setting) (all : Arguments) : Prop where
  /-- The values of an option come behind those that it has. -/
  values_eq : ∀ option,
    all.valuesOf option = said.valuesOf option ++ settings.filterMap (Setting.valueFor? option)
  /-- An option without value is given once in all, or not at all. -/
  toNat_eq : ∀ raised,
    (all.raises raised).toNat = (said.raises raised).toNat + settings.count (.flag raised)
  /-- There are no other words. -/
  trailing_eq : all.trailing = said.trailing

/-- A first setting that is said already is not said again. -/
theorem Extends.cancel {next : Arguments} {setting : Setting} {settings : List Setting}
    (h : Extends said (setting :: settings) all) (hfirst : Extends said [setting] next) :
    Extends next settings all where
  values_eq option := by
    rw [h.values_eq, hfirst.values_eq, List.append_assoc, ← List.filterMap_append]
    rfl
  toNat_eq raised := by
    rw [h.toNat_eq, hfirst.toNat_eq, Nat.add_assoc, ← List.count_append]
    rfl
  trailing_eq := h.trailing_eq.trans hfirst.trailing_eq.symm

/-- An option without value can be given if it counts once in all. -/
theorem exists_raise_eq {raised : Flag} {settings : List Setting}
    (h : Extends said (.flag raised :: settings) all) :
    ∃ next, said.raise raised = .ok next ∧ Extends said [.flag raised] next := by
  have hlow : said.raises raised = false := by
    have hcount := h.toNat_eq raised
    rw [List.count_cons_self] at hcount
    cases hraised : said.raises raised with
    | false => rfl
    | true =>
      have hle := Bool.toNat_le (all.raises raised)
      rw [hraised, Bool.toNat_true] at hcount
      omega
  cases raised
  all_goals
    refine ⟨_, if_neg (Bool.eq_false_iff.1 hlow), ⟨?_, ?_, rfl⟩⟩
    · rintro (_ | _ | _ | _ | _) <;> exact (List.append_nil _).symm
    · rintro (_ | _ | _ | _) <;> simp_all [raises]

/-- A value can be given if it is one of those that are said in all. -/
theorem exists_set_eq (hall : all.IsWritable) {option : ValueOption} {text : Text}
    {settings : List Setting} (h : Extends said (.value option text :: settings) all) :
    ∃ next, said.set option text = .ok next ∧ Extends said [.value option text] next := by
  have hvalue : Setting.valueFor? option (.value option text) = some text := if_pos rfl
  have hmore := h.values_eq option
  rw [List.filterMap_cons_some hvalue] at hmore
  have hpath : option ≠ .jobs → path? text = .ok ⟨text⟩ := fun hne =>
    if_neg (hall.isValue option hne text (by rw [hmore]; simp)).1
  cases option
  case «include» | exclude =>
    refine ⟨_, rfl, ⟨?_, ?_, rfl⟩⟩
    · rintro (_ | _ | _ | _ | _) <;> simp [valuesOf, Setting.valueFor?]
    · rintro (_ | _ | _ | _) <;> rfl
  -- The other options have no value yet, since there is one behind.
  case buildDirectory =>
    obtain ⟨hnone, -⟩ := eq_none_of_toList_map_eq hmore
    refine ⟨{ said with buildDirectory? := some ⟨text⟩ }, ?_, ⟨?_, ?_, rfl⟩⟩
    · rw [set, hnone, hpath (by decide)]
      rfl
    · rintro (_ | _ | _ | _ | _) <;> simp [valuesOf, Setting.valueFor?, hnone]
    · rintro (_ | _ | _ | _) <;> rfl
  case projectRoot =>
    obtain ⟨hnone, -⟩ := eq_none_of_toList_map_eq hmore
    refine ⟨{ said with projectRoot? := some ⟨text⟩ }, ?_, ⟨?_, ?_, rfl⟩⟩
    · rw [set, hnone, hpath (by decide)]
      rfl
    · rintro (_ | _ | _ | _ | _) <;> simp [valuesOf, Setting.valueFor?, hnone]
    · rintro (_ | _ | _ | _) <;> rfl
  case jobs =>
    obtain ⟨hnone, count, hcount, rfl⟩ := eq_none_of_toList_map_eq hmore
    refine ⟨{ said with jobs? := some count }, ?_, ⟨?_, ?_, rfl⟩⟩
    · rw [set, hnone, count?_ofNat (hall.jobs_lt count hcount)]
      rfl
    · rintro (_ | _ | _ | _ | _) <;> simp [valuesOf, Setting.valueFor?, hnone]
    · rintro (_ | _ | _ | _) <;> rfl

/-- Settings that say what a command line says can be given one after the other. -/
theorem foldlM_give_eq (hall : all.IsWritable) {settings : List Setting}
    (h : Extends said settings all) : settings.foldlM give said = .ok all := by
  induction settings generalizing said with
  | nil =>
    have hsame : all = said := by
      refine eq_of_valuesOf (fun option => ?_) (fun raised => ?_) h.trailing_eq
      · rw [h.values_eq, List.filterMap_nil, List.append_nil]
      · exact Function.LeftInverse.injective Bool.ofNat_toNat (h.toNat_eq raised)
    rw [hsame]
    rfl
  | cons setting settings ih =>
    have hfirst : ∃ next, said.give setting = .ok next ∧ Extends said [setting] next := by
      cases setting with
      | flag raised => exact exists_raise_eq h
      | value option text => exact exists_set_eq hall h
    obtain ⟨next, hgive, hnext⟩ := hfirst
    rw [List.foldlM_cons, hgive]
    exact ih (h.cancel hnext)

/-- Settings that say what the options of a command line say add this to nothing. -/
theorem AreSaidBy.extends {settings : List Setting} (h : all.AreSaidBy settings) :
    Extends {} settings { all with trailing := [] } where
  values_eq option := by
    have hnothing : valuesOf {} option = [] := by cases option <;> rfl
    have hsame : valuesOf { all with trailing := [] } option = all.valuesOf option := by
      cases option <;> rfl
    rw [hnothing, hsame, List.nil_append, h.values_eq]
  toNat_eq raised := by
    have hnothing : raises {} raised = false := by cases raised <;> rfl
    have hsame : raises { all with trailing := [] } raised = all.raises raised := by
      cases raised <;> rfl
    rw [hnothing, hsame, h.count_eq, Bool.toNat_false, Nat.zero_add]
  trailing_eq := rfl

/-- A value that is given is one that is said. -/
theorem AreSaidBy.head?_ne {settings : List Setting} (hsaid : all.AreSaidBy settings)
    (h : all.IsWritable) {setting : Setting} (hsetting : setting ∈ settings) {value : Text}
    (hvalue : value ∈ setting.values) : value.head? ≠ some '-' := by
  cases setting with
  | flag raised => cases hvalue
  | value option text =>
    obtain rfl := List.mem_singleton.1 hvalue
    have hmem : value ∈ settings.filterMap (Setting.valueFor? option) :=
      List.mem_filterMap.2 ⟨.value option value, hsetting, if_pos rfl⟩
    rw [hsaid.values_eq] at hmem
    exact head?_ne_of_mem_valuesOf h hmem

/-- What options say can be written if this can be done with other words behind them. -/
theorem IsWritable.withTrailing (h : all.IsWritable) (trailing : List Text) :
    IsWritable { all with trailing } where
  isValue option hne := by
    have hsame : valuesOf { all with trailing } option = all.valuesOf option := by
      cases option <;> rfl
    rw [hsame]
    exact h.isValue option hne
  jobs_lt := h.jobs_lt

end Arguments

/-! ## Whole command lines -/

/-- Reading a command line gives back what is written: options in any order and form, and then the
words behind them, whatever they look like. If the first of these does not begin with a dash, or if
there is none, the two dashes in front of them can be left out. What is asked for is then what was
written, with at least one worker. -/
theorem read_wordsOf {arguments : Arguments} (h : arguments.IsWritable) {writings : List Writing}
    (hsaid : arguments.AreSaidBy (writings.map (·.setting))) :
    read (wordsOf writings ++ ['-', '-'] :: arguments.trailing) = .ok arguments ∧
    ((∀ word ∈ arguments.trailing.head?, word.head? ≠ some '-') →
      read (wordsOf writings ++ arguments.trailing) = .ok arguments) ∧
    ∀ defaultJobs, arguments.request defaultJobs =
      { buildDirectory? := arguments.buildDirectory?
        includes := arguments.includes
        excludes := arguments.excludes
        trailing := arguments.trailing
        options :=
          { extraArguments := []
            fix := arguments.fix
            jobs := max (arguments.jobs?.getD defaultJobs) 1
            verbose := arguments.verbose
            usesPlugin := !arguments.withoutPlugin
            json := arguments.json } } := by
  have hgive := Arguments.foldlM_give_eq (h.withTrailing []) hsaid.extends
  have hvalues : ∀ writing ∈ writings, ∀ value ∈ writing.setting.values,
      value.head? ≠ some '-' := fun writing hwriting _ hvalue =>
    hsaid.head?_ne h (List.mem_map_of_mem hwriting) hvalue
  -- The options leave a draft that says them all, and what is behind them is read with it.
  have hread : ∀ rest, ∃ draft : Draft,
      draft.settle = .ok { arguments with trailing := [] } ∧
        read (wordsOf writings ++ rest) = readFrom draft rest :=
    exists_readFrom_wordsOf rfl hgive hvalues
  refine ⟨?_, fun hfirst => ?_, fun _ => rfl⟩
  · obtain ⟨draft, hsettle, hdraft⟩ := hread (['-', '-'] :: arguments.trailing)
    rw [hdraft, readFrom_dashes hsettle]
  · obtain ⟨draft, hsettle, hdraft⟩ := hread arguments.trailing
    rw [hdraft]
    rcases htrailing : arguments.trailing with _ | ⟨word, rest⟩
    · rw [readFrom, hsettle, ← htrailing]
    · rw [htrailing] at hfirst
      rw [readFrom_plain hsettle (hfirst word rfl), ← htrailing]

/-- Options in both forms with patterns between them, and words behind them that look like options
or like the dashes in front of them. -/
theorem read_wordsOf_mixed :
    let arguments : Arguments :=
      { buildDirectory? := some ⟨"out"⟩, includes := ["Core/", "a=b"], excludes := ["x"]
        jobs? := some 0, verbose := true, withoutPlugin := true, trailing := ["--fix", "--"] }
    let plain : Arguments := { arguments with trailing := ["a.cpp", "--", "-j"] }
    read ["-i", "Core/", "--no-plugin", "--jobs", "0", "-e", "x", "--include", "a=b", "-v", "-b",
      "out", "--", "--fix", "--"] = .ok arguments ∧
    read ["-i", "Core/", "--no-plugin", "--jobs", "0", "-e", "x", "--include", "a=b", "-v", "-b",
      "out", "a.cpp", "--", "-j"] = .ok plain ∧
    (arguments.request 8).options.jobs = 1 := by
  intro arguments plain
  let writings : List Writing :=
    [⟨.value .include "Core/", "-i", by decide⟩, ⟨.flag .withoutPlugin, "--no-plugin", by decide⟩,
      ⟨.value .jobs "0", "--jobs", by decide⟩, ⟨.value .exclude "x", "-e", by decide⟩,
      ⟨.value .include "a=b", "--include", by decide⟩, ⟨.flag .verbose, "-v", by decide⟩,
      ⟨.value .buildDirectory "out", "-b", by decide⟩]
  have hwritable : arguments.IsWritable := by
    refine ⟨fun option hne => ?_, by decide⟩
    cases option
    case jobs => exact absurd rfl hne
    all_goals decide
  have hsaid : arguments.AreSaidBy (writings.map (·.setting)) :=
    ⟨by rintro (_ | _ | _ | _ | _) <;> decide, by rintro (_ | _ | _ | _) <;> decide⟩
  obtain ⟨hread, -, hrequest⟩ := read_wordsOf hwritable hsaid
  have hplain : plain.AreSaidBy (writings.map (·.setting)) :=
    ⟨by rintro (_ | _ | _ | _ | _) <;> decide, by rintro (_ | _ | _ | _) <;> decide⟩
  exact ⟨hread, (read_wordsOf (hwritable.withTrailing _) hplain).2.1 (by decide),
    by rw [hrequest]; rfl⟩

end Analyze

end CommandLine

end EngineUpkeep
