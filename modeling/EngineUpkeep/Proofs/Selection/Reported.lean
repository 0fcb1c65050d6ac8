import EngineUpkeep.Proofs.Path.Ends
import EngineUpkeep.Proofs.Report.Filing
import EngineUpkeep.Proofs.Json.Plain
import EngineUpkeep.Proofs.Selection.Membership

/-!
# Diagnostics about selected sources

What the analyzer says about a source comes with the path of the source in front. Such a line is
about what stands before its first colon (`Diagnostic.subject_trim`), and if it speaks of trouble, it
is filed exactly if this is written like a source (`Diagnostic.qualifies_trim_iff`).

A source is selected by its extension, which a slash or a dot behind it does not change. So what the
analyzer says about a selected source is filed under the key by which it was selected, unless the
path ends idle (`Selection.entries_ofOutput_of_mem_ofDatabase`). A path that is written as it folds
does not.
-/

namespace EngineUpkeep

/-- No blank is a capital. -/
theorem Text.lowerAscii_of_isBlank {c : Char} (h : isBlank c = true) : lowerAscii c = c := by
  simp only [isBlank, blankRanges, List.any_cons, List.any_nil, Bool.or_eq_true,
    Bool.and_eq_true, decide_eq_true_eq, Bool.or_false] at h
  have hcapital : ¬ ('A'.toNat ≤ c.toNat ∧ c.toNat ≤ 'Z'.toNat) := by
    simp only [Char.reduceToNat]
    omega
  rw [lowerAscii, if_neg (by simpa using hcapital)]

namespace Diagnostic

/-- The words that a line speaks of trouble with. -/
def troubleWords : List Text := ["warning", "error"]

variable {line before : Text}

/-! ## What a line speaks of -/

theorem mentionsTrouble_iff : mentionsTrouble line = true ↔
    ∃ word ∈ troubleWords, word <:+: line.map Text.lowerAscii := by
  simp [mentionsTrouble, troubleWords, ← Text.contains_iff]

/-- A line speaks of all that a part of it speaks of. -/
theorem mentionsTrouble_of_infix {part : Text} (hpart : part <:+: line)
    (h : mentionsTrouble part = true) : mentionsTrouble line = true := by
  obtain ⟨word, hword, hfound⟩ := mentionsTrouble_iff.1 h
  exact mentionsTrouble_iff.2 ⟨word, hword, hfound.trans (hpart.map Text.lowerAscii)⟩

/-- Blanks at the ends of a line do not matter to what it speaks of. -/
theorem mentionsTrouble_trim (line : Text) : mentionsTrouble line.trim = mentionsTrouble line := by
  obtain ⟨front, back, hfront, hback, hline⟩ := Text.exists_blanks_trim line
  rw [Bool.eq_iff_iff]
  constructor
  · exact mentionsTrouble_of_infix (Text.trim_infix line)
  · intro h
    obtain ⟨word, hword, hfound⟩ := mentionsTrouble_iff.1 h
    -- There is no blank in the words, and a blank is not changed to a letter of them.
    have hletters : ∀ word ∈ troubleWords, word ≠ [] ∧ word.any Text.isBlank = false := by decide
    obtain ⟨hne, hblank⟩ := hletters word hword
    have hapart : ∀ blanks : Text, (∀ c ∈ blanks, Text.isBlank c = true) →
        ∀ c ∈ blanks.map Text.lowerAscii, c ∉ word := by
      intro blanks hblanks c hc hmem
      obtain ⟨blank, hmemBlanks, rfl⟩ := List.mem_map.1 hc
      rw [Text.lowerAscii_of_isBlank (hblanks blank hmemBlanks)] at hmem
      exact List.any_eq_false.1 hblank blank hmem (hblanks blank hmemBlanks)
    rw [hline, List.map_append, List.map_append] at hfound
    exact mentionsTrouble_iff.2 ⟨word, hword, Text.infix_of_infix_between hne
      (hapart front hfront) (hapart back hback) hfound⟩

/-! ## What a line is about -/

/-- A line is about what stands before its first colon. -/
theorem subject_trim (h : ':' ∉ before) (after : Text) :
    subject (Text.trim (before ++ ':' :: after)) = before.trim := by
  have hcolon : ∀ c ∈ before.trimStart, decide (c ≠ ':') = true := fun c hc =>
    decide_eq_true fun heq => h (heq ▸ (List.dropWhile_suffix _).mem hc)
  rw [subject, Text.trim_append_cons (by decide), List.takeWhile_append_of_pos hcolon,
    List.takeWhile_cons_of_neg (by simp), List.append_nil, Text.trim_trimStart]

/-- A line with a colon is filed if someone asks for it and it is about a source. -/
theorem qualifies_trim_iff {verbose : Bool} (h : ':' ∉ before) (after : Text) :
    Qualifies verbose (Text.trim (before ++ ':' :: after)) ↔
      (mentionsTrouble (before ++ ':' :: after) = true ∨ verbose = true) ∧
        Selection.namesSource before.trim = true := by
  have hmem : ':' ∈ Text.trim (before ++ ':' :: after) := by
    rw [Text.trim_append_cons (by decide)]
    simp
  rw [Qualifies, subject_trim h, mentionsTrouble_trim, ← namesSource_iff_exists_suffix]
  simp [hmem, List.ne_nil_of_mem hmem]

/-- A diagnostic as the analyzer prints it: a place in a file and a message. -/
def located (file : Text) (line column : Nat) (message : Text) : Text :=
  file ++ ':' :: (Text.ofNat line ++ ':' :: (Text.ofNat column ++ ':' :: ' ' :: message))

/-- A diagnostic is one line if the file and the message are. -/
theorem notMem_located {file message : Text} (hfile : '\n' ∉ file) (hmessage : '\n' ∉ message)
    (line column : Nat) : '\n' ∉ located file line column message := by
  have hline := (Text.noControls_ofNat line).notMem
  have hcolumn := (Text.noControls_ofNat column).notMem
  simp [located, hfile, hmessage, hline, hcolumn]

/-- A diagnostic speaks of all that its message speaks of. -/
theorem mentionsTrouble_located {message : Text} (h : mentionsTrouble message = true) (file : Text)
    (line column : Nat) : mentionsTrouble (located file line column message) = true := by
  have hsuffix : message <:+ located file line column message :=
    ⟨file ++ ':' :: (Text.ofNat line ++ ':' :: (Text.ofNat column ++ [':', ' '])), by
      simp [located]⟩
  exact mentionsTrouble_of_infix hsuffix.isInfix h

end Diagnostic

namespace Issues

/-- What a text of one line reports. -/
theorem entries_ofOutput_of_notMem {line : Text} (h : '\n' ∉ line) (root : Path) (verbose : Bool) :
    (ofOutput root verbose line).entries =
      if Diagnostic.Qualifies verbose line.trim then
        [(Diagnostic.keyOf root (Diagnostic.subject line.trim), [line.trim])]
      else [] := by
  rw [ofOutput, Diagnostic.ofText_of_notMem h, Diagnostic.ofLine, Diagnostic.ofLine?_eq]
  by_cases hqualifies : Diagnostic.Qualifies verbose line.trim
  · rw [if_pos hqualifies, if_pos hqualifies]
    rfl
  · rw [if_neg hqualifies, if_neg hqualifies]
    rfl

end Issues

namespace Selection

variable {entries : List CompileCommand} {root path : Path} {includes excludes : List Text}
  {file message : Text}

/-- There are no blanks at the ends of the path of a compilation unit. -/
theorem trim_of_isUnit (habsolute : path.isAbsolute = true) (hunit : isUnit path = true) :
    path.text.trim = path.text := by
  refine Text.trim_eq_self (fun c hc => ?_) fun c hc => ?_
  · rw [Path.isAbsolute, decide_eq_true_eq] at habsolute
    rw [habsolute] at hc
    cases hc
    decide
  · by_cases hends : path.EndsIdle
    · obtain hend | hend := hends.getLast?
      all_goals
        rw [hend] at hc
        cases hc
        decide
    · -- The last character is one of an extension.
      have hletters : ∀ ext ∈ unitExtensions, ('.' :: ext).getLast?.any Text.isBlank = false := by
        decide
      obtain ⟨ext, hext, hsuffix⟩ := exists_extension_of_isUnit habsolute hunit hends
      rw [Text.getLast?_of_suffix hsuffix (List.cons_ne_nil _ _)] at hc
      have hletter := hletters ext hext
      rwa [hc] at hletter

/-- What the analyzer says about a selected source is filed once, under the key in which the patterns
were looked for, unless the path of the source ends idle. Then it is not filed at all. A path that is
written as it folds does not end idle. -/
theorem entries_ofOutput_of_mem_ofDatabase (verbose : Bool) (line column : Nat)
    (hroot : root.isAbsolute = true) (hselected : file ∈ ofDatabase entries root includes excludes)
    (hcolon : ':' ∉ file) (hfile : '\n' ∉ file) (hmessage : '\n' ∉ message)
    (htrouble : Diagnostic.mentionsTrouble message = true) :
    let text := Diagnostic.located file line column message
    ∃ key, Path.key? root ⟨file⟩ = some key ∧ passes includes excludes key = true ∧
      (Issues.ofOutput root verbose text).entries =
        (if (Path.mk file).EndsIdle then [] else [(key, [text.trim])]) ∧
      ((Path.mk file).fold = ⟨file⟩ →
        (Issues.ofOutput root verbose text).entries = [(key, [text.trim])]) := by
  intro text
  obtain ⟨-, hunder, hunit, key, hkey, hpasses⟩ := mem_ofDatabase_iff.1 hselected
  -- The components of the root are at the front of the path, and the root directory is one of them.
  have habsolute : (Path.mk file).isAbsolute = true :=
    Path.root_mem_components_iff.1 (hunder.mem (Path.root_mem_components_iff.2 hroot))
  have htrim : file.trim = file := trim_of_isUnit habsolute hunit
  have hentries : (Issues.ofOutput root verbose text).entries =
      if (Path.mk file).EndsIdle then [] else [(key, [text.trim])] := by
    -- The message alone lets the line through, so the writing of the path decides.
    have hqualifies : Diagnostic.Qualifies verbose text.trim ↔ ¬ (Path.mk file).EndsIdle := by
      rw [← namesSource_iff habsolute hunit]
      refine (Diagnostic.qualifies_trim_iff hcolon _).trans ?_
      rw [htrim]
      exact and_iff_right (.inl (Diagnostic.mentionsTrouble_located htrouble file line column))
    have hsubject : Diagnostic.subject text.trim = file :=
      (Diagnostic.subject_trim hcolon _).trans htrim
    rw [Issues.entries_ofOutput_of_notMem (Diagnostic.notMem_located hfile hmessage line column),
      hsubject, Diagnostic.keyOf, hkey]
    by_cases hends : (Path.mk file).EndsIdle
    · rw [if_neg (by rw [hqualifies]; exact not_not_intro hends), if_pos hends]
    · rw [if_pos (hqualifies.2 hends), if_neg hends, Option.getD_some]
  refine ⟨key, hkey, passes_iff.2 hpasses, hentries, fun hfold => ?_⟩
  obtain ⟨stem, ext, -, hname⟩ := exists_name_of_isUnit hunit
  rw [hentries, if_neg (Path.not_endsIdle_of_fold habsolute hfold hname)]

/-- A relative file of the database is folded before it is selected. -/
theorem entries_ofOutput_relative_file :
    let entries : List CompileCommand := [⟨"/p/b", "../src/./a.cpp", none, none, none⟩]
    "/p/src/a.cpp".toList ∈ ofDatabase entries ⟨"/p"⟩ ["src"] ["old"] ∧
      (Issues.ofOutput ⟨"/p"⟩ false "/p/src/a.cpp:3:14: warning: w\r").entries =
        ([("src/a.cpp", ["/p/src/a.cpp:3:14: warning: w"])] : List (Text × List Text)) := by
  intro entries
  have hselected : "/p/src/a.cpp".toList ∈ ofDatabase entries ⟨"/p"⟩ ["src"] ["old"] := by
    decide +kernel
  have htrouble : Diagnostic.mentionsTrouble "warning: w\r" = true := by decide +kernel
  obtain ⟨key, hkey, -, -, hreported⟩ := entries_ofOutput_of_mem_ofDatabase false 3 14
    (by decide) hselected (by decide) (by decide) (by decide) htrouble
  have hsame : Path.key? ⟨"/p"⟩ ⟨"/p/src/a.cpp"⟩ = some "src/a.cpp".toList := by decide +kernel
  obtain rfl : key = "src/a.cpp" := Option.some.inj (hkey.symm.trans hsame)
  have htext : Diagnostic.located "/p/src/a.cpp" 3 14 "warning: w\r" =
      "/p/src/a.cpp:3:14: warning: w\r".toList := by decide +kernel
  have htrim : Text.trim "/p/src/a.cpp:3:14: warning: w\r" =
      "/p/src/a.cpp:3:14: warning: w".toList := by decide +kernel
  rw [htext, htrim] at hreported
  exact ⟨hselected, hreported (by decide +kernel)⟩

/-- An absolute file stands as it is written. With a dot behind it, it is selected, and what the
analyzer says about it is lost. -/
theorem entries_ofOutput_dot_behind :
    let entries : List CompileCommand := [⟨"/p", "/p/a.cpp/.", none, none, none⟩]
    ofDatabase entries ⟨"/p"⟩ [] [] = (["/p/a.cpp/."] : List Text) ∧
      Path.key? ⟨"/p"⟩ ⟨"/p/a.cpp/."⟩ = some "a.cpp".toList ∧
      Diagnostic.mentionsTrouble "warning: w" = true ∧
      ∀ verbose, (Issues.ofOutput ⟨"/p"⟩ verbose
        (Diagnostic.located "/p/a.cpp/." 1 1 "warning: w")).entries = [] := by
  decide +kernel

end Selection

end EngineUpkeep
