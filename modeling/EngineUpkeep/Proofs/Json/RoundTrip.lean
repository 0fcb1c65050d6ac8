import EngineUpkeep.Json.Reader
import EngineUpkeep.Proofs.Json.Plain

/-!
# Reading what was written

A plain value is read back from the text that is written for it (`Json.Plain.read?_write`). The
reader takes a value off the front of a text, so what is shown for a value is that it is taken off
whenever nothing stands behind it that could be a part of it (`Json.EndsValue`), by a reader with
fuel for two steps a character (`Json.IsReadBack`). This goes from the items of an array and the
members of an object to the array and the object.
-/

namespace EngineUpkeep

namespace Json

/-! ## Strings -/

/-- The control characters that are written with a letter. -/
def lettered : Text :=
  ['\x08', '\x0c', '\n', '\r', '\t']

/-- The mark that is read back for a character. -/
def markOf (c : Char) : Mark :=
  if c.toNat < 0x20 ∧ c ∉ lettered then .code c.toNat else .char c

theorem hexValue?_hexDigit : ∀ n < 16, Text.hexValue? (hexDigit n) = some n := by
  decide

/-- Two digits are enough for a control character. -/
theorem hexCode?_hexDigit {n : Nat} (h : n < 0x20) :
    hexCode? '0' '0' (hexDigit (n / 16)) (hexDigit (n % 16)) = some n := by
  have hhigh := hexValue?_hexDigit (n / 16) (by omega)
  have hlow := hexValue?_hexDigit (n % 16) (by omega)
  have hzero : Text.hexValue? '0' = some 0 := rfl
  simp only [hexCode?, hzero, hhigh, hlow, Option.bind_eq_bind, Option.bind_some]
  congr 1
  omega

theorem readMarks_escaped {letter c : Char} (h : escaped? letter = some c) (text : Text) :
    readMarks ('\\' :: letter :: text) =
      (readMarks text).map fun (marks, after) => (.char c :: marks, after) := by
  have hletter : letter ≠ 'u' := by
    rintro rfl
    cases h
  rw [readMarks, h]
  · cases readMarks text <;> rfl
  · exact fun _ _ _ _ _ heq => absurd heq hletter

theorem readMarks_code {a b c d : Char} {value : Nat} (h : hexCode? a b c d = some value)
    (text : Text) :
    readMarks ('\\' :: 'u' :: a :: b :: c :: d :: text) =
      (readMarks text).map fun (marks, after) => (.code value :: marks, after) := by
  rw [readMarks, h]
  cases readMarks text <;> rfl

theorem readMarks_char {c : Char} (h : 0x20 ≤ c.toNat) (hquote : c ≠ '"') (hslash : c ≠ '\\')
    (text : Text) :
    readMarks (c :: text) =
      (readMarks text).map fun (marks, after) => (.char c :: marks, after) := by
  -- All other cases of the reader begin with a quote or a backslash.
  rw [readMarks]
  · rw [if_neg (by simp [hslash, h])]
    cases readMarks text <;> rfl
  · exact hquote
  · exact fun _ _ _ _ _ heq => absurd heq hslash
  · exact fun _ _ heq => absurd heq hslash

/-- What is written for a character is read as one mark. -/
theorem readMarks_escape_append (c : Char) (text : Text) :
    readMarks (escape c ++ text) =
      (readMarks text).map fun (marks, after) => (markOf c :: marks, after) := by
  by_cases hletter : c ∈ '"' :: '\\' :: lettered
  · simp only [lettered, List.mem_cons, List.not_mem_nil, or_false] at hletter
    obtain rfl | rfl | rfl | rfl | rfl | rfl | rfl := hletter
    all_goals exact readMarks_escaped rfl text
  simp only [List.mem_cons, not_or] at hletter
  obtain ⟨hquote, hslash, hletter⟩ := hletter
  by_cases hcontrol : c.toNat < 0x20
  · have hescape : escape c =
        ['\\', 'u', '0', '0', hexDigit (c.toNat / 16), hexDigit (c.toNat % 16)] := by
      simp_all [escape, lettered]
    rw [hescape, markOf, if_pos ⟨hcontrol, hletter⟩]
    exact readMarks_code (hexCode?_hexDigit hcontrol) text
  · have hescape : escape c = [c] := by
      simp_all [escape, lettered]
    rw [hescape, markOf, if_neg fun h => hcontrol h.1]
    exact readMarks_char (Nat.le_of_not_lt hcontrol) hquote hslash text

/-- The marks of a string end at its closing quote. -/
theorem readMarks_flatMap_escape (text rest : Text) :
    readMarks (text.flatMap escape ++ '"' :: rest) = some (text.map markOf, rest) := by
  induction text with
  | nil => rfl
  | cons c text ih =>
    rw [List.flatMap_cons, List.append_assoc, readMarks_escape_append, ih]
    rfl

/-- A code that is no half of a pair is a character, whatever comes behind it. -/
theorem textOf?_code {value : Nat} (h : value < 0xD800) (marks : List Mark) :
    textOf? (.code value :: marks) = (textOf? marks).map (Char.ofNat value :: ·) := by
  have hhigh : isHigh value = false :=
    Bool.and_eq_false_imp.2 fun hge => absurd (of_decide_eq_true hge) (by omega)
  have hlow : isLow value = false :=
    Bool.and_eq_false_imp.2 fun hge => absurd (of_decide_eq_true hge) (by omega)
  -- It is looked at together with the next mark, if this is a code as well.
  by_cases hnext : ∃ low others, marks = .code low :: others
  · obtain ⟨low, others, rfl⟩ := hnext
    rw [textOf?, hhigh, hlow]
    rfl
  · rw [textOf?, hhigh, hlow]
    · rfl
    · exact fun low others heq => hnext ⟨low, others, heq⟩

theorem textOf?_map_markOf (text : Text) : textOf? (text.map markOf) = some text := by
  induction text with
  | nil => rfl
  | cons c text ih =>
    rw [List.map_cons, markOf]
    split
    · next hcontrol =>
      rw [textOf?_code (Nat.lt_trans hcontrol.1 (by decide)), ih, Char.ofNat_toNat]
      rfl
    · rw [textOf?, ih]
      rfl

/-- A text is read back from its string. -/
theorem readString_flatMap_escape (text rest : Text) :
    readString (text.flatMap escape ++ '"' :: rest) = some (some text, rest) := by
  rw [readString, readMarks_flatMap_escape]
  exact congrArg (fun text? => some (text?, rest)) (textOf?_map_markOf text)

/-! ## Numbers -/

/-- The text has nothing in front that could be a part of a value. -/
def EndsValue (rest : Text) : Prop :=
  ∀ c ∈ rest.head?, c ∈ [',', ']', '}']

theorem endsValue_nil : EndsValue [] :=
  fun _ h => nomatch h

theorem endsValue_cons {c : Char} (h : c ∈ [',', ']', '}']) (rest : Text) :
    EndsValue (c :: rest) := by
  rintro d ⟨⟩
  exact h

theorem EndsValue.cases {rest : Text} (h : EndsValue rest) :
    rest = [] ∨ ∃ after, rest = ',' :: after ∨ rest = ']' :: after ∨ rest = '}' :: after := by
  cases rest with
  | nil => exact .inl rfl
  | cons c after =>
    have hc := h c rfl
    simp only [List.mem_cons, List.not_mem_nil, or_false] at hc
    exact .inr ⟨after, by simpa using hc⟩

/-- No digit stands in front. -/
theorem EndsValue.takeWhile_isAsciiDigit {rest : Text} (h : EndsValue rest) :
    rest.takeWhile Text.isAsciiDigit = [] ∧ rest.dropWhile Text.isAsciiDigit = rest := by
  obtain rfl | ⟨after, rfl | rfl | rfl⟩ := h.cases
  all_goals exact ⟨rfl, rfl⟩

section Numbers

variable {rest : Text} (hrest : EndsValue rest)
include hrest

theorem readDigits_append {digits : Text} (h : ∀ c ∈ digits, Text.isAsciiDigit c = true)
    (hne : digits ≠ []) : readDigits (digits ++ rest) = some (digits, rest) := by
  obtain ⟨htake, hdrop⟩ := hrest.takeWhile_isAsciiDigit
  rw [readDigits, List.takeWhile_append_of_pos h, List.dropWhile_append_of_pos h, htake, hdrop,
    List.append_nil, if_neg hne]

theorem readWhole_ofNat_append (n : Nat) :
    readWhole (Text.ofNat n ++ rest) = some (Text.ofNat n, rest) := by
  by_cases hzero : n = 0
  · rw [hzero]
    rfl
  · rw [readWhole]
    · exact readDigits_append hrest (fun _ => Text.isAsciiDigit_of_mem_ofNat) (Text.ofNat_ne_nil n)
    · -- Only zero begins with a zero, after which the reader takes no more digits.
      intro others heq
      have hhead := congrArg List.head? heq
      rw [List.head?_append_of_ne_nil _ (Text.ofNat_ne_nil n)] at hhead
      exact Text.head?_ofNat_ne hzero hhead

/-- There is neither a fraction nor an exponent. -/
theorem readUnsigned_ofNat_append (n : Nat) :
    readUnsigned (Text.ofNat n ++ rest) = some (Text.ofNat n, rest) := by
  have hfraction : readFraction rest = some ([], rest) := by
    obtain rfl | ⟨after, rfl | rfl | rfl⟩ := hrest.cases
    all_goals rfl
  have hexponent : readExponent rest = some ([], rest) := by
    obtain rfl | ⟨after, rfl | rfl | rfl⟩ := hrest.cases
    all_goals rfl
  simp only [readUnsigned, readWhole_ofNat_append hrest, hfraction, hexponent,
    Option.bind_eq_bind, Option.bind_some, List.append_nil]

theorem readNumber_ofInt_append (n : Int) :
    readNumber (Text.ofInt n ++ rest) = some (Text.ofInt n, rest) := by
  cases n with
  | ofNat n =>
    rw [Text.ofInt, readNumber]
    · exact readUnsigned_ofNat_append hrest n
    · -- A digit is no sign.
      intro others heq
      obtain ⟨c, digits, hdigits⟩ := List.exists_cons_of_ne_nil (Text.ofNat_ne_nil n)
      have hc : Text.isAsciiDigit c = true :=
        Text.isAsciiDigit_of_mem_ofNat (hdigits ▸ List.mem_cons_self)
      rw [hdigits] at heq
      cases heq
      exact absurd hc (by decide)
  | negSucc n =>
    rw [Text.ofInt, List.cons_append, readNumber, readUnsigned_ofNat_append hrest]
    rfl

end Numbers

/-! ## Values -/

/-- The value is read back from what is written for it. -/
def IsReadBack (value : Json) : Prop :=
  ∀ fuel rest, 2 * value.write.length ≤ fuel → EndsValue rest →
    readValue fuel (value.write ++ rest) = some (value, rest)

/-- Nothing is skipped if the first character is no gap. -/
theorem skipGaps_append_of_eq_cons {c : Char} {text others : Text} (h : text = c :: others)
    (hgap : isGap c = false) (rest : Text) : skipGaps (text ++ rest) = text ++ rest := by
  rw [h, List.cons_append, skipGaps, List.dropWhile_cons_of_neg (Bool.eq_false_iff.1 hgap)]

/-- A plain value begins with a character that is neither a gap nor the end of an array. -/
theorem Plain.exists_write_eq_cons {value : Json} (h : value.Plain) :
    ∃ c text, value.write = c :: text ∧ isGap c = false ∧ c ≠ ']' := by
  cases h with
  | null => exact ⟨'n', _, rfl, by decide⟩
  | bool value =>
    cases value
    · exact ⟨'f', _, rfl, by decide⟩
    · exact ⟨'t', _, rfl, by decide⟩
  | ofInt n =>
    obtain ⟨c, digits, hdigits, hc⟩ := Text.exists_ofInt_eq_cons n
    refine ⟨c, digits, hdigits, ?_, ?_⟩
    · rw [Bool.eq_false_iff]
      intro hgap
      simp only [isGap, Bool.or_eq_true, decide_eq_true_eq] at hgap
      obtain ((rfl | rfl) | rfl) | rfl := hgap
      all_goals exact absurd hc (by decide)
    · rintro rfl
      exact absurd hc (by decide)
  | ofText text => exact ⟨'"', _, rfl, by decide⟩
  | array h => exact ⟨'[', _, rfl, by decide⟩
  | ofFields h => exact ⟨'{', _, rfl, by decide⟩

theorem Plain.skipGaps_write_append {value : Json} (h : value.Plain) (rest : Text) :
    skipGaps (value.write ++ rest) = value.write ++ rest := by
  obtain ⟨c, text, hwrite, hgap, -⟩ := h.exists_write_eq_cons
  exact skipGaps_append_of_eq_cons hwrite hgap rest

/-- There is fuel for a step, since something is written. -/
theorem Plain.isReadBack_of_succ {value : Json} (h : value.Plain)
    (hread : ∀ fuel rest, 2 * value.write.length ≤ fuel + 1 → EndsValue rest →
      readValue (fuel + 1) (value.write ++ rest) = some (value, rest)) : value.IsReadBack := by
  intro fuel rest hfuel hrest
  obtain ⟨c, text, hwrite, -⟩ := h.exists_write_eq_cons
  have hpos : fuel ≠ 0 := by
    rw [hwrite, List.length_cons] at hfuel
    omega
  obtain ⟨fuel, rfl⟩ := Nat.exists_eq_succ_of_ne_zero hpos
  exact hread fuel rest hfuel hrest

/-- Only a number begins with a minus sign or a digit. -/
theorem readValue_ofInt_append (n : Int) (fuel : Nat) {rest : Text} (hrest : EndsValue rest) :
    readValue (fuel + 1) ((ofInt n).write ++ rest) = some (.ofInt n, rest) := by
  obtain ⟨c, digits, hdigits, hc⟩ := Text.exists_ofInt_eq_cons n
  have hread := readNumber_ofInt_append hrest n
  have hne : ∀ d, ¬ (d = '-' ∨ Text.isAsciiDigit d = true) →
      ∀ others, c :: (digits ++ rest) = d :: others → False := by
    rintro d hd others ⟨⟩
    exact hd hc
  rw [ofInt, write]
  rw [hdigits, List.cons_append] at hread ⊢
  rw [readValue]
  · unfold readPlain
    split
    · next heq => exact (hne 'n' (by decide) _ heq).elim
    · next heq => exact (hne 't' (by decide) _ heq).elim
    · next heq => exact (hne 'f' (by decide) _ heq).elim
    · rw [hread]
      rfl
  · exact hne '[' (by decide)
  · exact hne '{' (by decide)
  · exact hne '"' (by decide)

theorem readValue_ofText_append (text : Text) (fuel : Nat) (rest : Text) :
    readValue (fuel + 1) ((ofText text).write ++ rest) = some (.ofText text, rest) := by
  have hwrite : (ofText text).write ++ rest = '"' :: (text.flatMap escape ++ '"' :: rest) := by
    simp [ofText, write, quoteOption, quote]
  rw [hwrite, readValue, readString_flatMap_escape]
  rfl

theorem skipGaps_comma (text : Text) : skipGaps (',' :: text) = ',' :: text := rfl

/-! ### Arrays -/

section Items

variable {items : List Json} (hplain : ∀ item ∈ items, item.Plain)
  (hback : ∀ item ∈ items, item.IsReadBack)
include hplain

theorem exists_writeItems_eq_cons (hne : items ≠ []) :
    ∃ c text, writeItems items = c :: text ∧ isGap c = false ∧ c ≠ ']' := by
  obtain ⟨item, others, rfl⟩ := List.exists_cons_of_ne_nil hne
  obtain ⟨c, text, hwrite, hc⟩ := (hplain item List.mem_cons_self).exists_write_eq_cons
  cases others with
  | nil => exact ⟨c, text, hwrite, hc⟩
  | cons next others =>
    rw [writeItems, hwrite]
    exact ⟨c, _, rfl, hc⟩

theorem skipGaps_writeItems_append (hne : items ≠ []) (rest : Text) :
    skipGaps (writeItems items ++ rest) = writeItems items ++ rest := by
  obtain ⟨c, text, hwrite, hgap, -⟩ := exists_writeItems_eq_cons hplain hne
  exact skipGaps_append_of_eq_cons hwrite hgap rest

include hback

/-- Each item is read with less fuel than there is for those behind it. -/
theorem readItems_writeItems_append (hne : items ≠ []) {fuel : Nat}
    (hfuel : 2 * (writeItems items).length < fuel) (rest : Text) :
    readItems fuel (writeItems items ++ ']' :: rest) = some (items, rest) := by
  induction items generalizing fuel with
  | nil => exact absurd rfl hne
  | cons item items ih =>
    obtain ⟨fuel, rfl⟩ := Nat.exists_eq_succ_of_ne_zero (Nat.ne_zero_of_lt hfuel)
    have hitem := hback item List.mem_cons_self fuel
    -- A bracket or a comma is behind the item, and either of them ends it.
    cases items with
    | nil =>
      rw [writeItems] at hfuel ⊢
      rw [readItems, hitem (']' :: rest) (by omega) (endsValue_cons (by decide) rest)]
      rfl
    | cons next items =>
      rw [writeItems, List.length_append, List.length_cons] at hfuel
      have hothers := (List.forall_mem_cons.1 hplain).2
      have hread : readItems fuel (writeItems (next :: items) ++ ']' :: rest) =
          some (next :: items, rest) :=
        ih hothers (List.forall_mem_cons.1 hback).2 (List.cons_ne_nil _ _) (by omega)
      rw [writeItems, List.append_assoc, List.cons_append, readItems,
        hitem _ (by omega) (endsValue_cons (by decide) _)]
      simp only [Option.bind_eq_bind, Option.bind_some, skipGaps_comma,
        skipGaps_writeItems_append hothers (List.cons_ne_nil _ _), hread]

theorem readValue_array_append {fuel : Nat}
    (hfuel : 2 * (write (.array items)).length ≤ fuel + 1) (rest : Text) :
    readValue (fuel + 1) (write (.array items) ++ rest) = some (.array items, rest) := by
  have hwrite : write (.array items) ++ rest = '[' :: (writeItems items ++ ']' :: rest) := by
    simp [write]
  rw [hwrite]
  by_cases hne : items = []
  · rw [hne]
    rfl
  · rw [write, List.length_append, List.length_cons] at hfuel
    rw [readValue, skipGaps_writeItems_append hplain hne]
    split
    · next heq =>
      obtain ⟨c, text, hitems, -, hc⟩ := exists_writeItems_eq_cons hplain hne
      rw [hitems] at heq
      exact absurd (List.cons.inj heq).1 hc
    · rw [readItems_writeItems_append hplain hback hne (by omega)]
      rfl

end Items

/-! ### Objects -/

/-- The name of a member begins with a quote. -/
theorem skipGaps_writeMembers_append {fields : List (Text × Json)} (hne : fields ≠ [])
    (rest : Text) :
    skipGaps (writeMembers (membersOf fields) ++ rest) =
      writeMembers (membersOf fields) ++ rest := by
  obtain ⟨field, others, rfl⟩ := List.exists_cons_of_ne_nil hne
  cases others <;> rfl

theorem length_write_lt_writeMember (name : Text) (value : Json) :
    value.write.length < (writeMember (some name, value)).length := by
  rw [writeMember, List.length_append, List.length_cons]
  omega

/-- What is behind a member decides whether there are more of them. -/
theorem readMembers_writeMember_append (name : Text) {value : Json} (hplain : value.Plain)
    (hback : value.IsReadBack) {fuel : Nat} (hfuel : 2 * value.write.length ≤ fuel) {behind : Text}
    (hbehind : EndsValue behind) :
    readMembers (fuel + 1) (writeMember (some name, value) ++ behind) =
      match skipGaps behind with
      | '}' :: after => some ([(some name, value)], after)
      | ',' :: next => do
        let (members, after) ← readMembers fuel (skipGaps next)
        some ((some name, value) :: members, after)
      | _ => none := by
  have hmember : writeMember (some name, value) ++ behind =
      '"' :: (name.flatMap escape ++ '"' :: ':' :: (value.write ++ behind)) := by
    simp [writeMember, quoteOption, quote]
  have hcolon : ∀ text, skipGaps (':' :: text) = ':' :: text := fun _ => rfl
  rw [hmember, readMembers, readString_flatMap_escape]
  simp only [Option.bind_eq_bind, Option.bind_some, hcolon]
  rw [hplain.skipGaps_write_append, hback fuel behind hfuel hbehind]
  rfl

section Members

variable {fields : List (Text × Json)} (hplain : ∀ field ∈ fields, field.2.Plain)
  (hback : ∀ field ∈ fields, field.2.IsReadBack)
include hplain hback

/-- Each member is read with less fuel than there is for those behind it. -/
theorem readMembers_writeMembers_append (hne : fields ≠ []) {fuel : Nat}
    (hfuel : 2 * (writeMembers (membersOf fields)).length < fuel) (rest : Text) :
    readMembers fuel (writeMembers (membersOf fields) ++ '}' :: rest) =
      some (membersOf fields, rest) := by
  induction fields generalizing fuel with
  | nil => exact absurd rfl hne
  | cons field fields ih =>
    obtain ⟨name, value⟩ := field
    obtain ⟨fuel, rfl⟩ := Nat.exists_eq_succ_of_ne_zero (Nat.ne_zero_of_lt hfuel)
    obtain ⟨hvalue : value.Plain, hothers⟩ := List.forall_mem_cons.1 hplain
    obtain ⟨hvalueBack : value.IsReadBack, hothersBack⟩ := List.forall_mem_cons.1 hback
    have hlength := length_write_lt_writeMember name value
    -- As with items, a brace or a comma is behind the member.
    cases fields with
    | nil =>
      have hwrite : writeMembers (membersOf [(name, value)]) = writeMember (some name, value) := rfl
      rw [hwrite] at hfuel
      rw [hwrite, readMembers_writeMember_append name hvalue hvalueBack (by omega)
        (endsValue_cons (by decide) rest)]
      rfl
    | cons next fields =>
      have hwrite : writeMembers (membersOf ((name, value) :: next :: fields)) =
          writeMember (some name, value) ++ ',' :: writeMembers (membersOf (next :: fields)) := rfl
      rw [hwrite, List.length_append, List.length_cons] at hfuel
      have hread : readMembers fuel (writeMembers (membersOf (next :: fields)) ++ '}' :: rest) =
          some (membersOf (next :: fields), rest) :=
        ih hothers hothersBack (List.cons_ne_nil _ _) (by omega)
      rw [hwrite, List.append_assoc, List.cons_append,
        readMembers_writeMember_append name hvalue hvalueBack (by omega)
          (endsValue_cons (by decide) _)]
      simp only [Option.bind_eq_bind, Option.bind_some, skipGaps_comma,
        skipGaps_writeMembers_append (List.cons_ne_nil next fields), hread]
      rfl

theorem readValue_ofFields_append {fuel : Nat}
    (hfuel : 2 * (write (.ofFields fields)).length ≤ fuel + 1) (rest : Text) :
    readValue (fuel + 1) (write (.ofFields fields) ++ rest) = some (.ofFields fields, rest) := by
  have hwrite : write (.ofFields fields) ++ rest =
      '{' :: (writeMembers (membersOf fields) ++ '}' :: rest) := by
    simp [ofFields_eq, write]
  rw [hwrite]
  by_cases hne : fields = []
  · rw [hne]
    rfl
  · have hlength : 2 * (writeMembers (membersOf fields)).length < fuel := by
      rw [ofFields_eq, write, List.length_append, List.length_cons] at hfuel
      omega
    rw [readValue, skipGaps_writeMembers_append hne]
    split
    · next heq =>
      -- A closing brace would stand where the first name has its quote.
      obtain ⟨field, others, rfl⟩ := List.exists_cons_of_ne_nil hne
      cases others <;> cases heq
    · rw [readMembers_writeMembers_append hplain hback hne hlength]
      rfl

end Members

/-! ### Documents -/

theorem Plain.isReadBack {value : Json} (h : value.Plain) : value.IsReadBack := by
  -- The induction is on how the value is made: items and fields are read back before the whole.
  induction h with
  | null => exact Plain.null.isReadBack_of_succ fun _ _ _ _ => rfl
  | bool value =>
    refine (Plain.bool value).isReadBack_of_succ fun _ _ _ _ => ?_
    cases value <;> rfl
  | ofInt n =>
    exact (Plain.ofInt n).isReadBack_of_succ fun fuel _ _ => readValue_ofInt_append n fuel
  | ofText text =>
    exact (Plain.ofText text).isReadBack_of_succ fun fuel rest _ _ =>
      readValue_ofText_append text fuel rest
  | array hitems ih =>
    exact (Plain.array hitems).isReadBack_of_succ fun _ rest hfuel _ =>
      readValue_array_append hitems ih hfuel rest
  | ofFields hfields ih =>
    exact (Plain.ofFields hfields).isReadBack_of_succ fun _ rest hfuel _ =>
      readValue_ofFields_append hfields ih hfuel rest

/-- A plain value is what is read from the text that is written for it. -/
theorem Plain.read?_write {value : Json} (h : value.Plain) : read? value.write = some value := by
  have hgaps := h.skipGaps_write_append []
  have hread := h.isReadBack (2 * value.write.length + 2) [] (by omega) endsValue_nil
  rw [List.append_nil] at hgaps hread
  rw [read?, hgaps, hread]
  rfl

end Json

end EngineUpkeep
