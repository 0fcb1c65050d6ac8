import EngineUpkeep.Proofs.Path.Relative
import EngineUpkeep.Proofs.Report.Issues
import EngineUpkeep.Proofs.Text.Lines
import EngineUpkeep.Proofs.Text.Trim

/-!
# Which lines of a text are filed

Whether a line is filed can be seen from the line alone (`Diagnostic.Qualifies`), and the key under
which it is filed from the root as well (`Diagnostic.HasKey`): what is written behind the root in
front of the colon, or all that is written there. What a text reports are its lines that qualify, in
order (`Diagnostic.ofText_eq`), so that each of them is under one key, and the lines under a key are
in order (`Issues.linesOf_ofOutput`). A reader who does not ask for everything gets a part of what
is filed for one who does: that of the lines that speak of trouble (`Issues.keepLines`).
-/

namespace EngineUpkeep

namespace Diagnostic

/-- What a line is about: the text before its first colon, without blanks around it. -/
def subject (line : Text) : Text :=
  Text.trim (line.takeWhile (· ≠ ':'))

/-- The line is filed under some key: it is asked for, and what it is about ends like a source. -/
def Qualifies (verbose : Bool) (line : Text) : Prop :=
  line ≠ [] ∧ (mentionsTrouble line ∨ verbose) ∧ ':' ∈ line ∧
    ∃ ending ∈ ([".cpp", ".cxx", ".cc", ".c", ".h", ".hpp", ".hxx"] : List Text),
      ending <:+ subject line

/-- Whether a line qualifies is decidable. -/
instance (verbose : Bool) (line : Text) : Decidable (Qualifies verbose line) := by
  unfold Qualifies
  infer_instance

/-- The key of a file: what is written behind the root, with slashes for backslashes, if the file is
under the root, and else the file as it is written. -/
def HasKey (root : Path) (file key : Text) : Prop :=
  if root.components <+: (Path.mk file).components then
    ∃ rest, Path.IsRest root file rest ∧ key = Text.replaceChar rest '\\' '/'
  else key = file

/-- Whether a file has a key is decidable. -/
instance (root : Path) (file key : Text) : Decidable (HasKey root file key) :=
  decidable_of_iff (if root.components <+: (Path.mk file).components then
      ∃ rest ∈ file.tails, Path.IsRest root file rest ∧ key = Text.replaceChar rest '\\' '/'
    else key = file) <| by
    rw [HasKey]
    by_cases hunder : root.components <+: (Path.mk file).components
    · rw [if_pos hunder, if_pos hunder]
      exact exists_congr fun rest =>
        and_iff_right_of_imp fun hrest => (List.mem_tails _ _).2 hrest.1.isSuffix
    · rw [if_neg hunder, if_neg hunder]

theorem namesSource_iff_exists_suffix {token : Text} :
    Selection.namesSource token = true ↔
      ∃ ending ∈ ([".cpp", ".cxx", ".cc", ".c", ".h", ".hpp", ".hxx"] : List Text),
        ending <:+ token := by
  rw [Selection.namesSource, List.any_eq_true]
  simp only [List.isSuffixOf_iff_suffix]
  rfl

/-- To ask for no more than trouble is to ask for everything and to leave out what is no trouble. -/
theorem qualifies_false_iff {line : Text} :
    Qualifies false line ↔ mentionsTrouble line ∧ Qualifies true line := by
  simp [Qualifies, and_left_comm]

theorem ofLine?_eq (root : Path) (verbose : Bool) (raw : Text) :
    ofLine? root verbose raw =
      if Qualifies verbose raw.trim then some (keyOf root (subject raw.trim), raw.trim)
      else none := by
  rw [ofLine?]
  by_cases hwanted : raw.trim = [] ∨ ¬ (mentionsTrouble raw.trim ∨ verbose)
  · have hnot : ¬ Qualifies verbose raw.trim := fun h =>
      hwanted.elim (fun hempty => h.1 hempty) fun hunwanted => hunwanted h.2.1
    rw [if_neg hnot, if_pos (by simpa using hwanted)]
  rw [if_neg (by simpa using hwanted)]
  rw [not_or, not_not] at hwanted
  rcases hsplit : Text.splitOnce raw.trim ':' with _ | ⟨head, rest⟩
  · rw [if_neg fun h => Text.splitOnce_eq_none_iff.1 hsplit h.2.2.1]
  · have hline := Text.eq_append_of_splitOnce hsplit
    have hhead : raw.trim.takeWhile (· ≠ ':') = head := by
      have hcolon : ∀ c ∈ head, decide (c ≠ ':') = true := fun c hc =>
        decide_eq_true fun heq => Text.notMem_of_splitOnce hsplit (heq ▸ hc)
      rw [hline, List.takeWhile_append_of_pos hcolon]
      simp
    have hmem : ':' ∈ raw.trim := by simp [hline]
    have hqualifies : Qualifies verbose raw.trim ↔ Selection.namesSource head.trim = true := by
      rw [Qualifies, subject, hhead, namesSource_iff_exists_suffix, and_iff_right hwanted.1,
        and_iff_right hwanted.2, and_iff_right hmem]
    rw [subject, hhead]
    exact if_congr hqualifies.symm rfl rfl

theorem Qualifies.namesSource {verbose : Bool} {line : Text} (h : Qualifies verbose line) :
    Selection.namesSource (subject line) = true :=
  namesSource_iff_exists_suffix.2 h.2.2.2

/-- Behind the root, a text that ends like a source ends with a name. -/
theorem isIdle_getLast?_of_namesSource {file rest : Text}
    (hsource : Selection.namesSource file = true) (hrest : rest <:+ file) (hne : rest ≠ []) :
    ∀ last ∈ (Text.pieces rest '/').getLast?, Path.isIdle last = false := by
  intro last hlast
  obtain ⟨before, hpieces⟩ := List.getLast?_eq_some_iff.1 hlast
  have hrestText := Text.join_pieces rest '/'
  rw [hpieces] at hrestText
  by_contra hidle
  rw [Bool.not_eq_false, Path.isIdle, Bool.or_eq_true, decide_eq_true_eq,
    decide_eq_true_eq] at hidle
  -- A last piece that names nothing is behind a slash, or it is a dot.
  have hmark : rest.getLast? = some '/' ∨ rest.getLast? = some '.' := by
    by_cases hbefore : before = []
    · obtain rfl | rfl := hidle
      · exact absurd (by simp [← hrestText, hbefore, Text.join]) hne
      · exact .inr (by simp [← hrestText, hbefore, Text.join])
    · rw [Text.join_append ['/'] hbefore (by simp)] at hrestText
      obtain rfl | rfl := hidle
      · exact .inl (by simp [← hrestText, Text.join])
      · exact .inr (by simp [← hrestText, Text.join])
  obtain ⟨hslash, hdot⟩ := Selection.getLast?_ne_of_namesSource hsource
  rw [Text.getLast?_of_suffix hrest hne] at hslash hdot
  exact hmark.elim hslash hdot

/-- Under an absolute root, the key under which a line about a source is filed is the one that the
source has. -/
theorem hasKey_iff {root : Path} {file key : Text} (hroot : root.isAbsolute = true)
    (hsource : Selection.namesSource file = true) :
    HasKey root file key ↔ keyOf root file = key := by
  rw [HasKey]
  split
  · next hunder =>
    have hkey : ∀ rest, Path.IsRest root file rest →
        keyOf root file = Text.replaceChar rest '\\' '/' := by
      intro rest hrest
      rw [keyOf, Path.key?, Path.relativeTo?_of_isRest hroot hrest
        (isIdle_getLast?_of_namesSource hsource hrest.isSuffix), Option.map_some, Option.getD_some]
    constructor
    · rintro ⟨rest, hrest, rfl⟩
      exact hkey rest hrest
    · rintro rfl
      obtain ⟨rest, hrest⟩ := Path.exists_isRest hroot hunder
      exact ⟨rest, hrest, hkey rest hrest⟩
  · next hunder =>
    have hnone : Path.key? root ⟨file⟩ = none := by
      rw [Option.eq_none_iff_forall_ne_some]
      exact fun key hkey => hunder (Path.exists_key?_iff.1 ⟨key, hkey⟩)
    rw [keyOf, hnone, Option.getD_none, eq_comm]

/-- What is filed of one line. -/
def ofLine (root : Path) (verbose : Bool) (line : Text) : List (Text × Text) :=
  (ofLine? root verbose line).toList

/-- A text of one line has nothing to file but this line. -/
theorem ofText_of_notMem {root : Path} {verbose : Bool} {line : Text} (h : '\n' ∉ line) :
    ofText root verbose line = ofLine root verbose line := by
  rw [ofText, Text.pieces_of_notMem h, ofLine]
  cases hline : ofLine? root verbose line <;> simp [hline]

/-- The filed lines of a text are its lines that qualify, each with its key, in order. -/
theorem ofText_eq (root : Path) (verbose : Bool) (text : Text) :
    ofText root verbose text =
      (((Text.linesWithEnds text).map Text.trim).filter fun line => Qualifies verbose line).map
        fun line => (keyOf root (subject line), line) := by
  -- The line feed at the end of a line is trimmed away, so it does not matter whether it is there.
  have hend : ∀ line, ofLine? root verbose (line ++ ['\n']) = ofLine? root verbose line := by
    intro line
    have hfeed : ∀ c ∈ ['\n'], Text.isBlank c = true := List.forall_mem_singleton.2 rfl
    rw [ofLine?_eq, ofLine?_eq, Text.trim_append_blanks hfeed]
  rw [ofText, ← Text.filterMap_linesWithEnds hend rfl, ← List.filterMap_eq_map,
    List.filterMap_filter, List.filterMap_map]
  refine List.filterMap_congr fun line _ => ?_
  simp [ofLine?_eq]

end Diagnostic

namespace Issues

/-- The lines of each file that pass a test. A file without such lines is left out. -/
def keepLines (keep : Text → Bool) (issues : Issues) : Issues where
  entries :=
    (issues.entries.map fun entry => (entry.1, entry.2.filter keep)).filter fun entry =>
      entry.2 ≠ []
  ordered := by
    have hfiles : (issues.entries.map fun entry => (entry.1, entry.2.filter keep)).map (·.1) =
        issues.entries.map (·.1) := by
      rw [List.map_map]
      rfl
    refine List.Pairwise.sublist (List.Sublist.map _ List.filter_sublist) ?_
    rw [hfiles]
    exact issues.ordered

theorem noEmpty_keepLines (keep : Text → Bool) (issues : Issues) :
    (issues.keepLines keep).NoEmpty := by
  intro entry hmem
  simpa using (List.mem_filter.1 hmem).2

theorem linesOf_keepLines (keep : Text → Bool) (issues : Issues) (file : Text) :
    (issues.keepLines keep).linesOf file = (issues.linesOf file).filter keep := by
  by_cases hkept : file ∈ (issues.keepLines keep).files
  · obtain ⟨kept, hmem, rfl⟩ := List.mem_map.1 hkept
    obtain ⟨entry, hentry, rfl⟩ := List.mem_map.1 (List.mem_filter.1 hmem).1
    rw [linesOf_of_mem hmem, linesOf_of_mem hentry]
  · rw [linesOf_of_notMem hkept]
    by_contra hlines
    -- A file with such lines has had an entry, and this has been kept.
    have hfile : file ∈ issues.files := by
      by_contra hnot
      exact hlines (by rw [linesOf_of_notMem hnot]; rfl)
    obtain ⟨entry, hentry, rfl⟩ := List.mem_map.1 hfile
    rw [linesOf_of_mem hentry] at hlines
    exact hkept (List.mem_map.2 ⟨(entry.1, entry.2.filter keep),
      List.mem_filter.2 ⟨List.mem_map_of_mem hentry, by simpa using Ne.symm hlines⟩, rfl⟩)

/-! ## The issues of a text -/

theorem total_ofDiagnostics (diagnostics : List (Text × Text)) :
    (ofDiagnostics diagnostics).total = diagnostics.length := by
  have hfold : ∀ issues : Issues,
      (diagnostics.foldl file issues).total = issues.total + diagnostics.length := by
    induction diagnostics with
    | nil => exact fun _ => rfl
    | cons d diagnostics ih =>
      intro issues
      rw [List.foldl_cons, ih, file, total_add, List.length_singleton, List.length_cons]
      omega
  rw [ofDiagnostics, hfold]
  exact Nat.zero_add _

theorem noEmpty_ofOutput (root : Path) (verbose : Bool) (text : Text) :
    (ofOutput root verbose text).NoEmpty :=
  noEmpty_ofDiagnostics _

/-- The lines under a key are those that qualify and have the key, in order. -/
theorem linesOf_ofOutput (root : Path) (verbose : Bool) (text : Text) (key : Text) :
    (ofOutput root verbose text).linesOf key =
      ((Text.linesWithEnds text).map Text.trim).filter fun line =>
        Diagnostic.Qualifies verbose line ∧
          Diagnostic.keyOf root (Diagnostic.subject line) = key := by
  rw [ofOutput, linesOf_ofDiagnostics, Diagnostic.ofText_eq, List.filter_map, List.map_map,
    List.filter_filter]
  refine (List.map_id' _).trans (List.filter_congr fun line _ => ?_)
  exact (Bool.and_comm _ _).trans (Bool.decide_and _ _).symm

/-- Each line that qualifies is filed once, under its one key, and behind the lines that come before
it there. A key is not there without lines. To ask for everything adds the lines that are no
trouble, and nothing else. -/
theorem filesEachLine_ofOutput (root : Path) (hroot : root.isAbsolute = true) (verbose : Bool)
    (text : Text) :
    let lines := (Text.linesWithEnds text).map Text.trim
    let issues := ofOutput root verbose text
    (∀ key, issues.linesOf key = lines.filter fun line =>
      Diagnostic.Qualifies verbose line ∧
        Diagnostic.HasKey root (Diagnostic.subject line) key) ∧
    (∀ line, Diagnostic.Qualifies verbose line →
      ∃! key, Diagnostic.HasKey root (Diagnostic.subject line) key) ∧
    (∀ key, key ∈ issues.files ↔ issues.linesOf key ≠ []) ∧
    ofOutput root false text = (ofOutput root true text).keepLines Diagnostic.mentionsTrouble ∧
    issues.total = lines.countP fun line => Diagnostic.Qualifies verbose line := by
  intro lines issues
  refine ⟨fun key => ?_, fun line hline => ?_,
    fun key => (noEmpty_ofOutput root verbose text).mem_files_iff, ?_, ?_⟩
  · rw [linesOf_ofOutput]
    refine List.filter_congr fun line _ => decide_eq_decide.2 (and_congr_right fun hline => ?_)
    exact (Diagnostic.hasKey_iff hroot hline.namesSource).symm
  · simp only [Diagnostic.hasKey_iff hroot hline.namesSource]
    exact existsUnique_eq'
  · -- Neither side has a key without lines, so it is enough to compare the lines key by key.
    refine eq_of_linesOf (noEmpty_ofOutput _ _ _) (noEmpty_keepLines _ _) fun key => ?_
    rw [linesOf_keepLines, linesOf_ofOutput, linesOf_ofOutput, List.filter_filter]
    refine List.filter_congr fun line _ => ?_
    simp [Diagnostic.qualifies_false_iff, and_assoc]
  · show (ofDiagnostics (Diagnostic.ofText root verbose text)).total = _
    rw [total_ofDiagnostics, Diagnostic.ofText_eq, List.length_map, List.countP_eq_length_filter]

/-- However the root is spelled in front of a file, the lines about it are under one key. Beside the
root a file is its own key. -/
theorem filesEachLine_ofOutput_spellings :
    let text : Text := "/p//G/./a.cpp:1: warning: w\n /q/a.h: Error\r\n/./p/G/./a.cpp:2: error: e"
    (ofOutput ⟨"/p/"⟩ false text).linesOf "G/./a.cpp" =
        (["/p//G/./a.cpp:1: warning: w", "/./p/G/./a.cpp:2: error: e"] : List Text) ∧
      (ofOutput ⟨"/p/"⟩ false text).linesOf "/q/a.h" = (["/q/a.h: Error"] : List Text) ∧
      (ofOutput ⟨"/p/"⟩ false text).total = 3 := by
  intro text
  obtain ⟨hlines, -, -, -, htotal⟩ := filesEachLine_ofOutput ⟨"/p/"⟩ (by decide) false text
  rw [hlines, hlines, htotal]
  decide +kernel

end Issues

end EngineUpkeep
