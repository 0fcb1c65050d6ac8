import EngineUpkeep.Proofs.Path.Relative
import EngineUpkeep.Proofs.Selection.Reported

/-!
# One key for each file

Lines are filed under keys, so a file should have one key and a key one file. Under an absolute root
a key leads back to what the path names, as long as there is no backslash in the path
(`Path.components_join_of_relativeTo?`). A file that is written from the root on has the key that it
has when it is written in full (`Diagnostic.keyOf_append`, `Diagnostic.keyOf_of_isAbsolute`).

`Issues.keys_identify_files` puts this together.
-/

namespace EngineUpkeep

variable {root : Path} {file tail : Text}

namespace Selection

/-- The writing of a source ends in a letter. -/
theorem isBlank_getLast?_of_namesSource (h : namesSource file = true) :
    ∀ c ∈ file.getLast?, Text.isBlank c = false := by
  obtain ⟨ending, hending, hlast⟩ := getLast?_of_namesSource h
  have hletters : ∀ ending ∈ sourceSuffixes, ending.getLast?.any Text.isBlank = false := by decide
  have hletter := hletters ending hending
  intro c hc
  rw [← hlast, hc] at hletter
  exact hletter

/-- What stands in front of a source does not matter to whether its writing is that of a source. -/
theorem namesSource_append (h : namesSource file = true) (before : Text) :
    namesSource (before ++ file) = true := by
  obtain ⟨ending, hending, hsuffix⟩ := List.any_eq_true.1 h
  refine List.any_eq_true.2 ⟨ending, hending, List.isSuffixOf_iff_suffix.2 ?_⟩
  exact (List.isSuffixOf_iff_suffix.1 hsuffix).trans (List.suffix_append before file)

end Selection

namespace Diagnostic

/-- A file that is written in full has the names behind the root for its key. -/
theorem keyOf_append (hroot : root.isAbsolute = true)
    (hplain : ∀ piece ∈ Text.pieces file '/', Path.IsPlain piece) (hbackslash : '\\' ∉ file) :
    keyOf root (root.text ++ '/' :: file) = file := by
  rw [keyOf, Path.key?_append hroot hplain hbackslash, Option.getD_some]

/-- A file that is written from the root on is its own key. -/
theorem keyOf_of_isAbsolute (hroot : root.isAbsolute = true)
    (hfile : (Path.mk file).isAbsolute = false) : keyOf root file = file := by
  rw [keyOf, Path.key?_eq_none hroot hfile, Option.getD_none]

end Diagnostic

namespace Issues

/-- A line with a source in front of the first colon that speaks of trouble behind it is filed under
the key of the source. -/
theorem entries_ofOutput_append (root : Path) (verbose : Bool) (hcolon : ':' ∉ file)
    (hfile : '\n' ∉ file) (hsource : Selection.namesSource file = true) (htrim : file.trim = file)
    (htail : '\n' ∉ tail) (htrouble : Diagnostic.mentionsTrouble tail = true) :
    (ofOutput root verbose (file ++ ':' :: tail)).entries =
      [(Diagnostic.keyOf root file, [(file ++ ':' :: tail).trim])] := by
  have hline : '\n' ∉ file ++ ':' :: tail := by simp [hfile, htail]
  -- The tail speaks of trouble by itself, so the line is let through in either mode.
  have hmentions : Diagnostic.mentionsTrouble (file ++ ':' :: tail) = true := by
    refine Diagnostic.mentionsTrouble_of_infix ?_ htrouble
    exact ((List.suffix_cons ':' tail).trans (List.suffix_append file _)).isInfix
  have hqualifies : Diagnostic.Qualifies verbose (Text.trim (file ++ ':' :: tail)) :=
    (Diagnostic.qualifies_trim_iff hcolon tail).2 ⟨.inl hmentions, by rwa [htrim]⟩
  rw [entries_ofOutput_of_notMem hline, if_pos hqualifies, Diagnostic.subject_trim hcolon, htrim]

section Spellings

variable (hroot : root.isAbsolute = true)
  (hplain : ∀ piece ∈ Text.pieces file '/', Path.IsPlain piece) (hfileColon : ':' ∉ file)
  (hbackslash : '\\' ∉ file) (hfileLine : '\n' ∉ file)
  (hsource : Selection.namesSource file = true) (htail : '\n' ∉ tail)
  (htrouble : Diagnostic.mentionsTrouble tail = true)
include hroot hplain hfileColon hbackslash hfileLine hsource htail htrouble

/-- A diagnostic about a file that is written in full is filed under the names behind the root. -/
theorem entries_ofOutput_full (hrootColon : ':' ∉ root.text) (hrootLine : '\n' ∉ root.text)
    (verbose : Bool) :
    (ofOutput root verbose (root.text ++ '/' :: file ++ ':' :: tail)).entries =
      [(file, [(root.text ++ '/' :: file ++ ':' :: tail).trim])] := by
  -- In front of the colon is a slash at one end and a letter at the other, so nothing is trimmed.
  have hfirst : ∀ c ∈ (root.text ++ '/' :: file).head?, Text.isBlank c = false := by
    obtain ⟨rest, hrest⟩ := Path.exists_text_of_isAbsolute hroot
    rw [hrest]
    rintro c ⟨⟩
    decide
  have hfull : Selection.namesSource (root.text ++ '/' :: file) = true := by
    have hwritten := Selection.namesSource_append hsource (root.text ++ ['/'])
    rwa [List.append_assoc] at hwritten
  have htrim := Text.trim_eq_self hfirst (Selection.isBlank_getLast?_of_namesSource hfull)
  rw [entries_ofOutput_append root verbose (by simp [hrootColon, hfileColon])
    (by simp [hrootLine, hfileLine]) hfull htrim htail htrouble,
    Diagnostic.keyOf_append hroot hplain hbackslash]

omit hbackslash in
/-- So is a diagnostic about a file that is written from the root on. -/
theorem entries_ofOutput_short (htrim : file.trim = file) (verbose : Bool) :
    (ofOutput root verbose (file ++ ':' :: tail)).entries =
      [(file, [(file ++ ':' :: tail).trim])] := by
  have hrelative : (Path.mk file).isAbsolute = false := by
    rw [Path.isAbsolute, decide_eq_false_iff_not, List.head?_eq_some_iff]
    rintro ⟨rest, rfl⟩
    -- There would be an empty name in front of the slash.
    exact (hplain [] (by rw [Text.pieces, if_pos rfl]; exact List.mem_cons_self)).ne_nil rfl
  rw [entries_ofOutput_append root verbose hfileColon hfileLine hsource htrim htail htrouble,
    Diagnostic.keyOf_of_isAbsolute hroot hrelative]

end Spellings

/-- Keys identify files. A path has a key if it is under the root, however many slashes there are
between the names of both and behind them. Without a backslash, the key leads back from the root to
the components of the path, so paths with other components have another key. And a diagnostic is
filed under the same key whether the file in it is written in full or from the root on. -/
theorem keys_identify_files (root : Path) (hroot : root.isAbsolute = true) :
    (∀ path : Path, path.isAbsolute = true →
      ((∃ key, Path.key? root path = some key) ↔ root.components <+: path.components)) ∧
    (∀ path root' path' : Path, path.isAbsolute = true →
      Relation.ReflTransGen Path.AddsSlash root.text root'.text →
      Relation.ReflTransGen Path.AddsSlash path.text path'.text →
        ((∃ key, Path.key? root' path' = some key) ↔ ∃ key, Path.key? root path = some key)) ∧
    (∀ (path : Path) (key : Text), path.isAbsolute = true → '\\' ∉ path.text →
      Path.key? root path = some key → (root.join ⟨key⟩).components = path.components) ∧
    (∀ (path other : Path) (key otherKey : Text),
      path.isAbsolute = true → '\\' ∉ path.text → other.isAbsolute = true → '\\' ∉ other.text →
      Path.key? root path = some key → Path.key? root other = some otherKey →
      path.components ≠ other.components → key ≠ otherKey) ∧
    (':' ∉ root.text → '\n' ∉ root.text →
      ∀ (file tail : Text) (verbose : Bool),
        (∀ piece ∈ Text.pieces file '/', Path.IsPlain piece) →
        ':' ∉ file → '\\' ∉ file → '\n' ∉ file → Selection.namesSource file = true →
        file.trim = file → '\n' ∉ tail → Diagnostic.mentionsTrouble tail = true →
          (ofOutput root verbose (root.text ++ '/' :: file ++ ':' :: tail)).entries =
            [(file, [(root.text ++ '/' :: file ++ ':' :: tail).trim])] ∧
          (ofOutput root verbose (file ++ ':' :: tail)).entries =
            [(file, [(file ++ ':' :: tail).trim])]) := by
  have hback : ∀ (path : Path) (key : Text), path.isAbsolute = true → '\\' ∉ path.text →
      Path.key? root path = some key → (root.join ⟨key⟩).components = path.components :=
    fun path key hpath hbackslash hkey =>
      Path.components_join_of_relativeTo? hroot hpath (Path.relativeTo?_of_key? hbackslash hkey)
  refine ⟨fun _ _ => Path.exists_key?_iff, ?slashes, hback, ?apart, ?filed⟩
  case slashes =>
    intro path root' path' hpath hroots hpaths
    rw [Path.exists_key?_iff, Path.exists_key?_iff,
      (Path.components_of_reflTransGen hroots hroot).2,
      (Path.components_of_reflTransGen hpaths hpath).2]
  case apart =>
    rintro path other key otherKey hpath hbackslash hother hotherBackslash hkey hotherKey hne rfl
    -- The key leads back to both.
    exact hne ((hback path key hpath hbackslash hkey).symm.trans
      (hback other key hother hotherBackslash hotherKey))
  case filed =>
    intro hrootColon hrootLine file tail verbose hplain hcolon hbackslash hline hsource htrim htail
      htrouble
    exact ⟨entries_ofOutput_full hroot hplain hcolon hbackslash hline hsource htail htrouble
      hrootColon hrootLine verbose,
      entries_ofOutput_short hroot hplain hcolon hline hsource htail htrouble htrim verbose⟩

/-- The directory `/proj2` is not under `/proj`. Slashes and dots that stand in a path may stand in
its key as well, and they are passed over on the way back. -/
theorem keys_identify_files_proj :
    Path.key? ⟨"/proj"⟩ ⟨"/proj2/a.cpp"⟩ = none ∧
      Path.key? ⟨"/proj"⟩ ⟨"//proj/./src//a.cpp/"⟩ = some "src//a.cpp".toList ∧
      (Path.join ⟨"/proj"⟩ ⟨"src//a.cpp"⟩).components =
        (Path.mk "//proj/./src//a.cpp/").components ∧
      (∃ key, Path.key? ⟨"/proj//"⟩ ⟨"/proj//src/a.cpp"⟩ = some key) ∧
      (∀ otherKey, Path.key? ⟨"/proj"⟩ ⟨"/proj/src/b.cpp"⟩ = some otherKey →
        "src//a.cpp".toList ≠ otherKey) ∧
      (ofOutput ⟨"/proj"⟩ false "/proj/src/a.cpp:3: error: e").entries =
        ([("src/a.cpp", ["/proj/src/a.cpp:3: error: e"])] : List (Text × List Text)) ∧
      (ofOutput ⟨"/proj"⟩ false "src/a.cpp:3: error: e").entries =
        ([("src/a.cpp", ["src/a.cpp:3: error: e"])] : List (Text × List Text)) := by
  obtain ⟨hunder, hslashes, hback, hapart, hfiled⟩ := keys_identify_files ⟨"/proj"⟩ (by decide)
  have hkey : Path.key? ⟨"/proj"⟩ ⟨"//proj/./src//a.cpp/"⟩ = some "src//a.cpp".toList := by
    decide +kernel
  have hmore : ∃ key, Path.key? ⟨"/proj//"⟩ ⟨"/proj//src/a.cpp"⟩ = some key := by
    have hroots : Relation.ReflTransGen Path.AddsSlash "/proj" "/proj//" :=
      (Relation.ReflTransGen.single (.trailing "/proj")).tail (.trailing "/proj/")
    have hpaths : Relation.ReflTransGen Path.AddsSlash "/proj/src/a.cpp" "/proj//src/a.cpp" :=
      .single (.doubled "/proj".toList "src/a.cpp".toList)
    refine (hslashes ⟨"/proj/src/a.cpp"⟩ ⟨"/proj//"⟩ ⟨"/proj//src/a.cpp"⟩ (by decide) hroots
      hpaths).2 ((hunder ⟨"/proj/src/a.cpp"⟩ (by decide)).2 (by decide +kernel))
  have hlines := hfiled (by decide) (by decide) "src/a.cpp" "3: error: e" false
    (by decide +kernel) (by decide) (by decide) (by decide) (by decide +kernel)
    (by decide +kernel) (by decide) (by decide +kernel)
  refine ⟨?apart, hkey, hback _ _ (by decide) (by decide) hkey, hmore, ?keys, ?full, ?short⟩
  case apart =>
    rw [Option.eq_none_iff_forall_ne_some]
    intro key hfound
    exact absurd ((hunder ⟨"/proj2/a.cpp"⟩ (by decide)).1 ⟨key, hfound⟩) (by decide +kernel)
  case keys =>
    intro otherKey hother
    exact hapart _ ⟨"/proj/src/b.cpp"⟩ _ _ (by decide) (by decide) (by decide) (by decide) hkey
      hother (by decide +kernel)
  case full => exact hlines.1.trans (by decide +kernel)
  case short => exact hlines.2.trans (by decide +kernel)

end Issues

end EngineUpkeep
