import EngineUpkeep.Proofs.Path.Fold
import EngineUpkeep.Selection

/-!
# How paths end

A path names the same file with slashes and dots behind it, and its extension is that of the file. So
the writing of a path with an extension ends in this extension exactly if nothing stands behind the
name of the file (`Selection.namesSource_iff`). Behind the names of a folded path there is nothing
(`Path.not_endsIdle_of_fold`).
-/

namespace EngineUpkeep

/-- The last character of an ending is that of the text. -/
theorem Text.getLast?_of_suffix {ending text : Text} (h : ending <:+ text) (hne : ending ≠ []) :
    text.getLast? = ending.getLast? := by
  obtain ⟨front, rfl⟩ := h
  exact List.getLast?_append_of_ne_nil front hne

namespace Path

variable {path : Path} {front : List Text} {last name : Text}

/-- The root directory is a component of absolute paths, and of no others. -/
theorem root_mem_components_iff : .root ∈ path.components ↔ path.isAbsolute = true := by
  have hbody : .root ∉ path.body.filterMap componentOf? := by
    intro hmem
    obtain ⟨piece, -, hpiece⟩ := List.mem_filterMap.1 hmem
    rw [componentOf?] at hpiece
    split at hpiece
    · cases hpiece
    · split at hpiece <;> cases hpiece
  rw [components, List.mem_append, or_iff_left hbody, anchor]
  split
  · next habsolute => simp [habsolute]
  · next habsolute =>
    -- In front of a relative path stands a dot, or nothing.
    split <;> simp [habsolute]

/-- Something that names nothing stands behind the last name of a path: a slash, or a slash and a
dot. -/
def EndsIdle (path : Path) : Prop :=
  ['/'] <:+ path.text ∨ ['/', '.'] <:+ path.text

/-- Whether a path ends idle is decidable. -/
instance (path : Path) : Decidable path.EndsIdle := by
  unfold EndsIdle
  infer_instance

theorem EndsIdle.getLast? (h : path.EndsIdle) :
    path.text.getLast? = some '/' ∨ path.text.getLast? = some '.' := by
  obtain hslash | hdot := h
  · exact .inl (Text.getLast?_of_suffix hslash (by decide))
  · exact .inr (Text.getLast?_of_suffix hdot (by decide))

/-- The writing of an absolute path ends with its last piece. -/
theorem suffix_of_body (habsolute : path.isAbsolute = true) (hbody : path.body = front ++ [last]) :
    '/' :: last <:+ path.text := by
  rw [text_eq, habsolute, hbody, if_pos rfl]
  by_cases hfront : front = []
  · -- The only piece stands behind the slash of the root directory.
    rw [hfront]
    exact List.suffix_refl _
  · rw [Text.join_append ['/'] hfront (List.cons_ne_nil _ _)]
    exact ⟨['/'] ++ Text.join ['/'] front, by simp [Text.join]⟩

/-- An absolute path ends idle exactly if its last piece names nothing. -/
theorem endsIdle_iff (habsolute : path.isAbsolute = true) (hbody : path.body = front ++ [last]) :
    path.EndsIdle ↔ isIdle last = true := by
  have hlast : '/' ∉ last :=
    slash_notMem_of_mem_body (by rw [hbody]; exact List.mem_concat_self)
  obtain ⟨before, hbefore⟩ := suffix_of_body habsolute hbody
  constructor
  · -- What stands behind the last slash is the last piece.
    rintro (⟨other, hother⟩ | ⟨other, hother⟩)
    · have hnil : last = [] :=
        Text.eq_of_append_mark_eq (hbefore.trans hother.symm) hlast List.not_mem_nil
      rw [hnil]
      rfl
    · have hdot : last = ['.'] :=
        Text.eq_of_append_mark_eq (hbefore.trans hother.symm) hlast (by decide)
      rw [hdot]
      rfl
  · intro hidle
    rw [isIdle, Bool.or_eq_true, decide_eq_true_eq, decide_eq_true_eq] at hidle
    obtain rfl | rfl := hidle
    · exact .inl ⟨before, hbefore⟩
    · exact .inr ⟨before, hbefore⟩

/-- The last piece of a path, if it names something, is the name of the file. -/
theorem last_eq_of_fileName? (hbody : path.body = front ++ [last]) (hidle : isIdle last = false)
    (hname : path.fileName? = some name) : last = name := by
  have hcomponent : componentOf? last = some (if last = ['.', '.'] then .up else .name last) := by
    rw [componentOf?, hidle, if_neg Bool.false_ne_true]
    split <;> rfl
  have hcomponents : path.components.getLast? = componentOf? last := by
    simp [components, hbody, List.filterMap_append, hcomponent]
  rw [fileName?, hcomponents, hcomponent] at hname
  split at hname
  · next found hfound =>
    cases hname
    split at hfound
    · cases hfound
    · cases hfound
      rfl
  · cases hname

/-- A folded path that names a file does not end idle. -/
theorem not_endsIdle_of_fold (habsolute : path.isAbsolute = true) (hfold : path.fold = path)
    (hname : path.fileName? = some name) : ¬ path.EndsIdle := by
  -- Without names the path would be the root directory, which has no name.
  have hnames : path.foldedNames ≠ [] := by
    intro hnil
    have hcomponents := components_fold path
    rw [hfold, hnil, habsolute] at hcomponents
    rw [fileName?, hcomponents] at hname
    cases hname
  have hplain : ∀ other ∈ path.foldedNames, IsPlain other := fun _ hother =>
    isPlain_of_mem_foldedNames hother
  have hbody := body_ofNames path.isAbsolute hplain
  rw [← fold_eq, hfold, if_neg hnames] at hbody
  obtain ⟨front, last, hlast⟩ := (List.eq_nil_or_concat' path.foldedNames).resolve_left hnames
  rw [endsIdle_iff habsolute (hbody.trans hlast),
    (hplain last (by rw [hlast]; exact List.mem_concat_self)).not_idle]
  exact Bool.false_ne_true

/-! ## Extensions -/

/-- An extension is what stands behind the last dot of a name. -/
theorem eq_of_extensionOf? {ext : Text} (h : extensionOf? name = some ext) :
    ∃ stem, name = stem ++ '.' :: ext := by
  rw [extensionOf?] at h
  split at h
  · next after before hsplit =>
    split at h
    · cases h
    · cases h
      refine ⟨before.reverse, ?_⟩
      have hreverse := congrArg List.reverse (Text.eq_append_of_splitOnce hsplit)
      simpa using hreverse
  · cases h

end Path

namespace Selection

variable {path : Path}

/-- The name of a compilation unit has one of the extensions. -/
theorem exists_name_of_isUnit (h : isUnit path = true) :
    ∃ stem, ∃ ext ∈ unitExtensions, path.fileName? = some (stem ++ '.' :: ext) := by
  obtain ⟨ext, hext, hmem⟩ := (Option.any_eq_true _ _).1 h
  obtain ⟨name, hname, hextension⟩ := Option.bind_eq_some_iff.1 hext
  obtain ⟨stem, rfl⟩ := Path.eq_of_extensionOf? hextension
  exact ⟨stem, ext, by simpa using hmem, hname⟩

/-- A compilation unit ends idle, or else with one of the extensions. -/
theorem exists_extension_of_isUnit (habsolute : path.isAbsolute = true) (hunit : isUnit path = true)
    (hends : ¬ path.EndsIdle) : ∃ ext ∈ unitExtensions, '.' :: ext <:+ path.text := by
  obtain ⟨stem, ext, hext, hname⟩ := exists_name_of_isUnit hunit
  have hne : path.body ≠ [] := by
    rw [Path.body_eq]
    exact Text.pieces_ne_nil _ _
  obtain ⟨front, last, hbody⟩ := (List.eq_nil_or_concat' path.body).resolve_left hne
  -- The last piece names something, so it is the name with the extension.
  rw [Path.endsIdle_iff habsolute hbody, Bool.not_eq_true] at hends
  obtain rfl := Path.last_eq_of_fileName? hbody hends hname
  refine ⟨ext, hext, List.IsSuffix.trans ?_ (Path.suffix_of_body habsolute hbody)⟩
  exact ⟨'/' :: stem, rfl⟩

/-- The last character of the writing of a source is that of an ending. -/
theorem getLast?_of_namesSource {file : Text} (h : namesSource file = true) :
    ∃ ending ∈ sourceSuffixes, file.getLast? = ending.getLast? := by
  obtain ⟨ending, hending, hsuffix⟩ := List.any_eq_true.1 h
  have hne : ∀ ending ∈ sourceSuffixes, ending ≠ [] := by decide
  exact ⟨ending, hending,
    Text.getLast?_of_suffix (List.isSuffixOf_iff_suffix.1 hsuffix) (hne ending hending)⟩

/-- So it is neither a slash nor a dot. -/
theorem getLast?_ne_of_namesSource {file : Text} (h : namesSource file = true) :
    file.getLast? ≠ some '/' ∧ file.getLast? ≠ some '.' := by
  obtain ⟨ending, hending, hlast⟩ := getLast?_of_namesSource h
  have hendings : ∀ ending ∈ sourceSuffixes,
      ending.getLast? ≠ some '/' ∧ ending.getLast? ≠ some '.' := by decide
  rw [hlast]
  exact hendings ending hending

/-- The writing of a compilation unit is that of a source exactly if it does not end idle. -/
theorem namesSource_iff (habsolute : path.isAbsolute = true) (hunit : isUnit path = true) :
    namesSource path.text = true ↔ ¬ path.EndsIdle := by
  constructor
  · intro h hends
    obtain ⟨hslash, hdot⟩ := getLast?_ne_of_namesSource h
    exact hends.getLast?.elim hslash hdot
  · intro hends
    obtain ⟨ext, hext, hsuffix⟩ := exists_extension_of_isUnit habsolute hunit hends
    have hending : ∀ ext ∈ unitExtensions, '.' :: ext ∈ sourceSuffixes := by decide
    exact List.any_eq_true.2
      ⟨'.' :: ext, hending ext hext, List.isSuffixOf_iff_suffix.2 hsuffix⟩

end Selection

end EngineUpkeep
