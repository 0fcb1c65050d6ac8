import EngineUpkeep.Proofs.Path.Below

/-!
# Folded paths

Folding carries out `.` and `..` on a stack of names, so what is left are names that stand for
entries wherever they are written (`isPlain_of_mem_foldedNames`). A folded path is written as these
names and nothing else: they are its components (`components_fold`), and folding it again changes
nothing (`fold_fold`).
-/

namespace EngineUpkeep

namespace Path

variable {path : Path} {names : List Text} {name : Text}

/-! ## Names in a path -/

/-- The name of an entry is its own component. -/
theorem componentOf?_of_isPlain (h : IsPlain name) : componentOf? name = some (.name name) := by
  rw [componentOf?, h.not_idle, if_neg h.ne_up]
  rfl

/-- A piece that stands for an entry is a name wherever it is written. -/
theorem isPlain_of_componentOf? {piece : Text} (hslash : '/' ∉ piece)
    (h : componentOf? piece = some (.name name)) : IsPlain name := by
  rw [componentOf?] at h
  split at h
  · cases h
  · next hidle =>
    split at h
    · cases h
    · next hup =>
      cases h
      exact ⟨by simpa using hidle, hup, hslash⟩

/-- The names among the components of a path stand for entries wherever they are written. -/
theorem isPlain_of_mem_components (h : .name name ∈ path.components) : IsPlain name := by
  rw [components, List.mem_append] at h
  obtain h | h := h
  -- A name does not come from the front of a path: only the root and the place itself stand there.
  · rw [anchor] at h
    split at h
    · simp at h
    · split at h
      · simp at h
      · cases h
  · obtain ⟨piece, hpiece, hname⟩ := List.mem_filterMap.1 h
    exact isPlain_of_componentOf? (slash_notMem_of_mem_body hpiece) hname

/-! ## Paths written as names -/

/-- The path that is written as names, from the root directory or not. -/
def ofNames (absolute : Bool) (names : List Text) : Path :=
  ⟨(if absolute then ['/'] else []) ++ Text.join ['/'] names⟩

theorem isAbsolute_ofNames (absolute : Bool) (hnames : ∀ name ∈ names, IsPlain name) :
    (ofNames absolute names).isAbsolute = absolute := by
  cases absolute with
  | true => rfl
  | false =>
    rw [isAbsolute, decide_eq_false_iff_not]
    by_cases hne : names = []
    · subst hne
      simp [ofNames, Text.join]
    · exact head?_join hne hnames

/-- A path that is not absolute has no slash at its front. -/
theorem withoutRoot_text (h : path.isAbsolute = false) : withoutRoot path.text = path.text := by
  rw [isAbsolute, decide_eq_false_iff_not] at h
  rcases htext : path.text with _ | ⟨c, rest⟩
  · rfl
  · rw [htext, List.head?_cons, Option.some_inj] at h
    simp [withoutRoot, h]

/-- The pieces of such a path are its names. Without names there is one piece, which is empty. -/
theorem body_ofNames (absolute : Bool) (hnames : ∀ name ∈ names, IsPlain name) :
    (ofNames absolute names).body = if names = [] then [[]] else names := by
  have habsolute := isAbsolute_ofNames absolute hnames
  -- The slash at the front, if there is one, is no part of the body.
  have hbody : (ofNames absolute names).body = Text.pieces (Text.join ['/'] names) '/' := by
    rw [body_eq]
    cases absolute with
    | true => rfl
    | false => exact congrArg (Text.pieces · '/') (withoutRoot_text habsolute)
  rw [hbody]
  split
  · next hnil => rw [hnil]; rfl
  · next hne => exact Text.pieces_join hne fun name hname => (hnames name hname).slash_notMem

/-- Such a path has no component but its names. -/
theorem components_ofNames (absolute : Bool) (hnames : ∀ name ∈ names, IsPlain name) :
    (ofNames absolute names).components =
      (if absolute then [.root] else []) ++ names.map .name := by
  have hbody := body_ofNames absolute hnames
  -- A name is not `.`, so such a path does not say that it starts at the place itself.
  have hhere : (ofNames absolute names).startsHere = false := by
    rw [startsHere, hbody, Bool.and_eq_false_iff, decide_eq_false_iff_not]
    refine .inr ?_
    rcases names with _ | ⟨name, names⟩
    · decide
    · rw [if_neg (List.cons_ne_nil _ _), List.head?_cons, Option.some_inj]
      exact (hnames name List.mem_cons_self).ne_here
  have hnamed : (ofNames absolute names).body.filterMap componentOf? = names.map .name := by
    rw [hbody]
    split
    · next hnil => rw [hnil]; rfl
    · rw [← List.filterMap_eq_map]
      exact List.filterMap_congr fun name hname => componentOf?_of_isPlain (hnames name hname)
  rw [components, anchor, isAbsolute_ofNames absolute hnames, hhere, hnamed]
  rfl

/-! ## Folding -/

/-- Carrying out components leaves names that stand for entries. -/
theorem isPlain_of_mem_foldl_foldStep {components : List Component} {stack : List Text}
    (hstack : ∀ name ∈ stack, IsPlain name)
    (hcomponents : ∀ name, .name name ∈ components → IsPlain name) :
    ∀ name ∈ components.foldl foldStep stack, IsPlain name := by
  -- The induction is on the components, and the stack changes on the way.
  induction components generalizing stack with
  | nil => exact hstack
  | cons component components ih =>
    refine ih ?_ fun name hname => hcomponents name (List.mem_cons_of_mem _ hname)
    intro name hname
    cases component with
    | root => cases hname
    | here => exact hstack name hname
    | up => exact hstack name (List.dropLast_subset stack hname)
    | name last =>
      obtain hname | hname := List.mem_append.1 hname
      · exact hstack name hname
      · obtain rfl := List.mem_singleton.1 hname
        exact hcomponents name List.mem_cons_self

/-- What is left when a path is folded are names that stand for entries. -/
theorem isPlain_of_mem_foldedNames (h : name ∈ path.foldedNames) : IsPlain name :=
  isPlain_of_mem_foldl_foldStep (fun _ h => by cases h)
    (fun _ hname => isPlain_of_mem_components hname) name h

/-- Names are put on the stack one after the other. -/
theorem foldl_foldStep_names (stack names : List Text) :
    (names.map Component.name).foldl foldStep stack = stack ++ names := by
  induction names generalizing stack with
  | nil => exact (List.append_nil stack).symm
  | cons name names ih => rw [List.map_cons, List.foldl_cons, ih, foldStep, List.append_assoc]; rfl

theorem fold_eq (path : Path) : path.fold = ofNames path.isAbsolute path.foldedNames :=
  rfl

theorem isAbsolute_fold (path : Path) : path.fold.isAbsolute = path.isAbsolute :=
  isAbsolute_ofNames _ fun _ h => isPlain_of_mem_foldedNames h

/-- The components of a folded path are the names that are left, after the root directory if the
path is absolute. -/
theorem components_fold (path : Path) :
    path.fold.components =
      (if path.isAbsolute then [.root] else []) ++ path.foldedNames.map .name :=
  components_ofNames _ fun _ h => isPlain_of_mem_foldedNames h

theorem foldedNames_fold (path : Path) : path.fold.foldedNames = path.foldedNames := by
  -- The root empties a stack that is empty, so the names alone decide what is left.
  rw [foldedNames, components_fold, List.foldl_append, foldl_foldStep_names]
  cases path.isAbsolute <;> rfl

/-- Folding a path twice is folding it once. -/
theorem fold_fold (path : Path) : path.fold.fold = path.fold := by
  rw [fold_eq path.fold, isAbsolute_fold, foldedNames_fold, fold_eq]

end Path

end EngineUpkeep
