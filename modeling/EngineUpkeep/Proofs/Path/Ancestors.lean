import EngineUpkeep.Proofs.Path.Relative
import Mathlib.Algebra.GroupWithZero.Nat

/-!
# Paths above a path

What lies above an absolute path is written as a beginning of its text that ends with one of its
components (`LiesAbove`). The ancestors of the path are the path itself and exactly what lies above
it (`mem_ancestors_iff`), innermost first (`pairwise_ancestors`). So what is found first among them
is nearest to the path (`find?_ancestors_eq_some_iff`).

A text that goes on may name more components, or a longer last one, but it never names less. The
characters that its components need (`namedWidth`) are counted to say so. This count tells which of
the beginnings that name the same components is the shortest.
-/

namespace EngineUpkeep

/-- How many characters a component needs, with a slash behind it. -/
def Component.width : Component → Nat
  | .root => 1
  | .here => 2
  | .up => 3
  | .name text => text.length + 1

theorem Component.width_pos (component : Component) : 0 < component.width := by
  cases component <;> simp [Component.width]

/-- The first of some texts, joined, are a beginning of all of them, joined. -/
theorem Text.join_prefix_join {front texts : List Text} (mark : Text) (h : front <+: texts) :
    Text.join mark front <+: Text.join mark texts := by
  obtain ⟨rest, rfl⟩ := h
  by_cases hfront : front = []
  · rw [hfront]
    exact List.nil_prefix
  by_cases hrest : rest = []
  · rw [hrest, List.append_nil]
  · rw [Text.join_append mark hfront hrest]
    exact List.prefix_append _ _

namespace Path

variable {dir path other parent : Path} {front pieces : List Text} {piece last text text' : Text}
  {c : Char}

/-! ## Longer texts name no less -/

/-- How many characters the components need that a text names. -/
def namedWidth (text : Text) : Nat :=
  ((named text).map Component.width).sum

theorem namedWidth_append_slash (before after : Text) :
    namedWidth (before ++ '/' :: after) = namedWidth before + namedWidth after := by
  rw [namedWidth, named_append_slash, List.map_append, List.sum_append]
  rfl

theorem namedWidth_of_notMem (h : '/' ∉ piece) :
    namedWidth piece = if isIdle piece then 0 else piece.length + 1 := by
  rw [namedWidth, named, Text.pieces_of_notMem h]
  by_cases hidle : isIdle piece = true
  · rw [if_pos hidle, List.filterMap_cons_none (componentOf?_eq_none_of_isIdle hidle)]
    rfl
  rw [if_neg hidle]
  by_cases hup : piece = ['.', '.']
  · rw [hup]
    rfl
  · have hname : componentOf? piece = some (.name piece) := by
      rw [componentOf?, if_neg hidle, if_neg hup]
    rw [List.filterMap_cons_some hname]
    rfl

/-- A piece that goes on to one that names nothing names nothing. -/
theorem isIdle_of_isIdle_append {more : Text} (h : isIdle (piece ++ more) = true) :
    isIdle piece = true := by
  rw [isIdle, Bool.or_eq_true, decide_eq_true_eq, decide_eq_true_eq] at h ⊢
  obtain h | h := h
  · exact .inl (List.append_eq_nil_iff.1 h).1
  · obtain ⟨hpiece, -⟩ | ⟨hpiece, -⟩ := List.append_eq_singleton_iff.1 h
    · exact .inl hpiece
    · exact .inr hpiece

/-- A piece that goes on by a character does not need less. If it names something with this
character, it needs more. -/
theorem namedWidth_piece_concat (h : '/' ∉ piece ++ [c]) :
    namedWidth piece ≤ namedWidth (piece ++ [c]) ∧
      (isIdle (piece ++ [c]) = false → namedWidth piece < namedWidth (piece ++ [c])) := by
  have hpiece : '/' ∉ piece := fun hmem => h (List.mem_append_left [c] hmem)
  rw [namedWidth_of_notMem hpiece, namedWidth_of_notMem h, List.length_append,
    List.length_singleton]
  cases hidle : isIdle (piece ++ [c]) with
  | true =>
    rw [if_pos (isIdle_of_isIdle_append hidle)]
    exact ⟨Nat.zero_le _, fun h => nomatch h⟩
  | false =>
    rw [if_neg Bool.false_ne_true]
    -- The piece itself may be empty or a dot, and then it needs nothing.
    split <;> omega

theorem namedWidth_le_concat (text : Text) (c : Char) :
    namedWidth text ≤ namedWidth (text ++ [c]) := by
  by_cases hc : c = '/'
  · rw [hc, namedWidth_append_slash]
    apply Nat.le_add_right
  -- Only what stands behind the last slash goes on, so the text is gone through slash by slash.
  induction hlength : text.length using Nat.strong_induction_on generalizing text with
  | _ length ih =>
    by_cases hslash : '/' ∈ text
    · obtain ⟨before, after, rfl⟩ := List.append_of_mem hslash
      have hafter : after.length < length := by
        rw [← hlength, List.length_append, List.length_cons]
        omega
      rw [List.append_assoc, List.cons_append, namedWidth_append_slash, namedWidth_append_slash]
      apply Nat.add_le_add_left
      exact ih after.length hafter after rfl
    · exact (namedWidth_piece_concat (by simp [hslash, Ne.symm hc])).1

/-- What a text goes on to does not need less than the text. -/
theorem namedWidth_mono (h : text <+: text') : namedWidth text ≤ namedWidth text' := by
  obtain ⟨rest, rfl⟩ := h
  induction rest generalizing text with
  | nil => rw [List.append_nil]
  | cons c rest ih =>
    calc namedWidth text ≤ namedWidth (text ++ [c]) := namedWidth_le_concat text c
      _ ≤ namedWidth (text ++ [c] ++ rest) := ih
      _ = namedWidth (text ++ c :: rest) := by rw [List.append_assoc, List.singleton_append]

/-- More components need more. -/
theorem namedWidth_lt_of_components (hdir : dir.isAbsolute = true) (hpath : path.isAbsolute = true)
    (hbegins : dir.components <+: path.components) (hne : dir.components ≠ path.components) :
    namedWidth dir.text < namedWidth path.text := by
  rw [components_of_isAbsolute hdir, components_of_isAbsolute hpath] at hbegins hne
  -- The root directory stands in front of both, and behind the shorter one comes something.
  obtain ⟨rest, hrest⟩ := (List.prefix_cons_inj Component.root).1 hbegins
  obtain ⟨component, more, rfl⟩ : ∃ component more, rest = component :: more := by
    apply List.exists_cons_of_ne_nil
    rintro rfl
    rw [List.append_nil] at hrest
    exact hne (congrArg (Component.root :: ·) hrest)
  have hpos := component.width_pos
  rw [namedWidth, namedWidth, ← hrest, List.map_append, List.sum_append, List.map_cons,
    List.sum_cons]
  omega

theorem isAbsolute_of_components_eq (habsolute : path.isAbsolute = true)
    (h : other.components = path.components) : other.isAbsolute = true := by
  rw [← root_mem_components_iff, h, root_mem_components_iff]
  exact habsolute

/-- A path whose last piece names something is not written longer than its components need: no
other beginning of its text names all of them. -/
theorem eq_of_begins_of_components_eq (habsolute : path.isAbsolute = true)
    (hbody : path.body = front ++ [last]) (hlast : isIdle last = false)
    (hbegins : other.text <+: path.text) (hcomponents : other.components = path.components) :
    other = path := by
  have hslash : '/' ∉ last := slash_notMem_of_mem_body (by rw [hbody]; exact List.mem_concat_self)
  obtain ⟨before, hbefore⟩ := suffix_of_body habsolute hbody
  obtain ⟨init, c, rfl⟩ := (List.eq_nil_or_concat' last).resolve_left (by rintro rfl; cases hlast)
  have htext : path.text = (before ++ '/' :: init) ++ [c] := by simp [← hbefore]
  rw [htext, List.prefix_concat_iff] at hbegins
  obtain hsame | hshorter := hbegins
  · exact congrArg Path.mk (hsame.trans htext.symm)
  -- A shorter text lacks the last character, which the last component needs.
  have hless : namedWidth other.text < namedWidth path.text := by
    calc namedWidth other.text ≤ namedWidth (before ++ '/' :: init) :=
          namedWidth_mono hshorter
      _ = namedWidth before + namedWidth init := namedWidth_append_slash before init
      _ < namedWidth before + namedWidth (init ++ [c]) :=
          Nat.add_lt_add_left ((namedWidth_piece_concat hslash).2 hlast) _
      _ = namedWidth path.text := by rw [← namedWidth_append_slash, hbefore]
  rw [components_of_isAbsolute (isAbsolute_of_components_eq habsolute hcomponents),
    components_of_isAbsolute habsolute, List.cons.injEq] at hcomponents
  rw [namedWidth, hcomponents.2] at hless
  exact absurd hless (Nat.lt_irrefl _)

/-! ## What lies above a path -/

/-- `dir` lies above `path` as both are written: it names the first components of `path`, but not
all of them, and of the beginnings of `path` that name these it is the shortest. -/
structure LiesAbove (dir path : Path) : Prop where
  /-- The text of the path begins with that of what lies above it. -/
  begins_text : dir.text <+: path.text
  /-- The components of the path begin with its components. -/
  begins_components : dir.components <+: path.components
  /-- The path has other components behind these. -/
  components_ne : dir.components ≠ path.components
  /-- Above an absolute path lie absolute paths only. -/
  isAbsolute_eq : dir.isAbsolute = path.isAbsolute
  /-- No other beginning of the text names these components. -/
  shortest : ∀ other : Path, other.text <+: dir.text → other.components = dir.components →
    other = dir

/-- `dir` is `path` or lies above it. -/
def AtOrAbove (dir path : Path) : Prop :=
  dir = path ∨ dir.LiesAbove path

theorem AtOrAbove.refl (path : Path) : path.AtOrAbove path :=
  .inl rfl

theorem AtOrAbove.isAbsolute_eq (h : dir.AtOrAbove path) : dir.isAbsolute = path.isAbsolute := by
  obtain rfl | h := h
  · rfl
  · exact h.isAbsolute_eq

theorem LiesAbove.length_lt (h : dir.LiesAbove path) :
    dir.components.length < path.components.length :=
  h.begins_components.length_le.lt_of_ne fun hlength =>
    h.components_ne (h.begins_components.eq_of_length hlength)

theorem LiesAbove.asymm (h : dir.LiesAbove path) : ¬ path.LiesAbove dir :=
  fun h' => absurd h.length_lt (Nat.lt_asymm h'.length_lt)

theorem AtOrAbove.trans_liesAbove (hdir : dir.AtOrAbove other) (hother : other.LiesAbove path) :
    dir.LiesAbove path := by
  obtain rfl | hdir := hdir
  · exact hother
  have hlength := Nat.lt_trans hdir.length_lt hother.length_lt
  exact
    { begins_text := hdir.begins_text.trans hother.begins_text
      begins_components := hdir.begins_components.trans hother.begins_components
      components_ne := fun h => Nat.ne_of_lt hlength (congrArg List.length h)
      isAbsolute_eq := hdir.isAbsolute_eq.trans hother.isAbsolute_eq
      shortest := hdir.shortest }

theorem AtOrAbove.trans (hdir : dir.AtOrAbove other) (hother : other.AtOrAbove path) :
    dir.AtOrAbove path := by
  obtain rfl | hother := hother
  · exact hdir
  · exact .inr (hdir.trans_liesAbove hother)

/-! ## The directory around a path -/

/-- The last piece that is kept, when idle ones are taken off the end, names something. -/
theorem not_idle_of_dropIdleEnd_eq (h : dropIdleEnd pieces = front ++ [last]) :
    isIdle last = false := by
  have hreverse : pieces.reverse.dropWhile isIdle = last :: front.reverse := by
    rw [dropIdleEnd] at h
    simpa using congrArg List.reverse h
  have hfirst := List.head?_dropWhile_not isIdle pieces.reverse
  rw [hreverse] at hfirst
  exact hfirst

section Absolute

variable (habsolute : path.isAbsolute = true)
include habsolute

theorem tail_of_isAbsolute : path.tail = path.body := by
  rw [tail, startsHere_of_isAbsolute habsolute, if_neg Bool.false_ne_true]

/-- Only the root directory has no directory around it. -/
theorem components_eq_of_parent?_eq_none (h : path.parent? = none) :
    path.components = [.root] := by
  rw [parent?, tail_of_isAbsolute habsolute] at h
  split at h
  · cases h
  · next hkept =>
    rw [components_eq_cons habsolute, ← filterMap_dropIdleEnd, List.reverse_eq_nil_iff.1 hkept]
    rfl

/-- The directory around a path is written as the pieces in front of the last one that names
something. Of these, the idle ones at the end are left out. -/
theorem exists_text_eq_of_parent? (h : path.parent? = some parent) :
    ∃ before last, dropIdleEnd path.body = before ++ [last] ∧
      parent.text = '/' :: Text.join ['/'] (dropIdleEnd before) := by
  have hhere := startsHere_of_isAbsolute habsolute
  rw [parent?, tail_of_isAbsolute habsolute] at h
  split at h
  · next last before hpieces =>
    refine ⟨before.reverse, last, by simpa using congrArg List.reverse hpieces, ?_⟩
    rw [← Option.some.inj h, ofTail, hhere, if_neg Bool.false_ne_true, lead, if_pos habsolute]
    rfl
  · rw [hhere, if_neg Bool.false_ne_true] at h
    cases h

theorem isAbsolute_of_parent? (h : path.parent? = some parent) : parent.isAbsolute = true := by
  obtain ⟨before, last, -, htext⟩ := exists_text_eq_of_parent? habsolute h
  rw [isAbsolute, htext]
  rfl

/-- The directory around a path has all its components but the last. -/
theorem exists_components_eq_of_parent? (h : path.parent? = some parent) :
    ∃ component, path.components = parent.components ++ [component] := by
  obtain ⟨before, last, hbody, htext⟩ := exists_text_eq_of_parent? habsolute h
  obtain ⟨component, hcomponent⟩ := exists_componentOf? (not_idle_of_dropIdleEnd_eq hbody)
  have hslash : ∀ piece ∈ dropIdleEnd before, '/' ∉ piece := by
    intro piece hpiece
    apply slash_notMem_of_mem_body
    apply (dropIdleEnd_prefix_self path.body).subset
    rw [hbody]
    exact List.mem_append_left _ ((dropIdleEnd_prefix_self before).subset hpiece)
  have hparent : parent.components = .root :: before.filterMap componentOf? := by
    rw [components_of_isAbsolute (isAbsolute_of_parent? habsolute h), htext,
      ← filterMap_dropIdleEnd before, ← named_join_pieces hslash]
    -- In front of the first slash stands an empty piece.
    exact congrArg (Component.root :: ·) (named_append_slash [] _)
  refine ⟨component, ?_⟩
  rw [hparent, components_eq_cons habsolute, ← filterMap_dropIdleEnd path.body, hbody,
    List.filterMap_append, List.filterMap_cons_some hcomponent]
  rfl

theorem liesAbove_of_parent? (h : path.parent? = some parent) : parent.LiesAbove path := by
  have hparent := isAbsolute_of_parent? habsolute h
  obtain ⟨before, last, hbody, htext⟩ := exists_text_eq_of_parent? habsolute h
  obtain ⟨component, hcomponents⟩ := exists_components_eq_of_parent? habsolute h
  have hpieces : dropIdleEnd before <+: path.body :=
    (dropIdleEnd_prefix_self before).trans
      ((List.prefix_append before [last]).trans (hbody ▸ dropIdleEnd_prefix_self path.body))
  refine ⟨?text, ?components, ?more, hparent.trans habsolute.symm, ?shortest⟩
  case text =>
    rw [htext, text_eq path, if_pos habsolute]
    exact (List.prefix_cons_inj '/').2 (Text.join_prefix_join ['/'] hpieces)
  case components => exact hcomponents ▸ List.prefix_append _ _
  case more => rw [hcomponents]; simp
  case shortest =>
    intro other hbegins hsame
    obtain hnone | ⟨front, last, hkept⟩ := List.eq_nil_or_concat' (dropIdleEnd before)
    · -- The root directory is written with one slash, and no absolute path with less.
      have hroot : parent.text = [] ++ ['/'] := by rw [htext, hnone]; rfl
      have hne := text_ne_nil_of_isAbsolute (isAbsolute_of_components_eq hparent hsame)
      rw [hroot, List.prefix_concat_iff] at hbegins
      have hslash := hbegins.resolve_right fun h => hne (List.prefix_nil.1 h)
      exact congrArg Path.mk (hslash.trans hroot.symm)
    · have hparentBody : parent.body = front ++ [last] := by
        rw [body_eq, htext, ← hkept]
        apply Text.pieces_join (by simp [hkept])
        exact fun piece hpiece => slash_notMem_of_mem_body (hpieces.subset hpiece)
      exact eq_of_begins_of_components_eq hparent hparentBody (not_idle_of_dropIdleEnd_eq hkept)
        hbegins hsame

/-- What lies above a path is the directory around it or lies above that. -/
theorem atOrAbove_of_parent? (h : path.parent? = some parent) (hdir : dir.LiesAbove path) :
    dir.AtOrAbove parent := by
  have habove := liesAbove_of_parent? habsolute h
  have hparent := isAbsolute_of_parent? habsolute h
  have hdirAbsolute := hdir.isAbsolute_eq.trans habsolute
  obtain ⟨component, hcomponents⟩ := exists_components_eq_of_parent? habsolute h
  have hbegins : dir.components <+: parent.components := by
    have hall := hdir.begins_components
    rw [hcomponents, List.prefix_concat_iff] at hall
    exact hall.resolve_left fun heq => hdir.components_ne (heq.trans hcomponents.symm)
  -- Both are beginnings of one text, so one of them is a beginning of the other.
  have htexts := List.prefix_or_prefix_of_prefix hdir.begins_text habove.begins_text
  by_cases heq : dir.components = parent.components
  · left
    obtain htext | htext := htexts
    · exact habove.shortest dir htext heq
    · exact (hdir.shortest parent htext heq.symm).symm
  · right
    have hless := namedWidth_lt_of_components hdirAbsolute hparent hbegins heq
    -- The longer text cannot be the one that names less.
    have htext := htexts.resolve_right fun htext =>
      absurd (namedWidth_mono htext) (Nat.not_le.2 hless)
    exact ⟨htext, hbegins, heq, hdirAbsolute.trans hparent.symm, hdir.shortest⟩

/-! ## The list of ancestors -/

theorem atOrAbove_of_mem_ancestorsUpTo {fuel : Nat} (h : dir ∈ ancestorsUpTo fuel path) :
    dir.AtOrAbove path := by
  induction fuel generalizing path with
  | zero => exact .inl (List.mem_singleton.1 h)
  | succ fuel ih =>
    rw [ancestorsUpTo] at h
    split at h
    · exact .inl (List.mem_singleton.1 h)
    · next parent hparent =>
      obtain rfl | h := List.mem_cons.1 h
      · exact .refl _
      · have hat := ih (isAbsolute_of_parent? habsolute hparent) h
        exact .inr (hat.trans_liesAbove (liesAbove_of_parent? habsolute hparent))

/-- Each parent has one component less, so with as many parents as there are components nothing
is left out. -/
theorem mem_ancestorsUpTo_of_atOrAbove {fuel : Nat} (hfuel : path.components.length ≤ fuel)
    (h : dir.AtOrAbove path) : dir ∈ ancestorsUpTo fuel path := by
  induction fuel generalizing path with
  | zero =>
    -- The root directory is a component, so there is at least one.
    rw [components_of_isAbsolute habsolute] at hfuel
    cases hfuel
  | succ fuel ih =>
    obtain rfl | h := h
    · obtain ⟨above, habove⟩ := exists_ancestorsUpTo_eq (fuel + 1) dir
      rw [habove]
      exact List.mem_cons_self
    rw [ancestorsUpTo]
    split
    · next hparent =>
      have hlength := h.length_lt
      rw [components_eq_of_parent?_eq_none habsolute hparent,
        components_of_isAbsolute (h.isAbsolute_eq.trans habsolute)] at hlength
      simp at hlength
    · next parent hparent =>
      obtain ⟨component, hcomponents⟩ := exists_components_eq_of_parent? habsolute hparent
      rw [hcomponents, List.length_append, List.length_singleton] at hfuel
      apply List.mem_cons_of_mem
      apply ih (isAbsolute_of_parent? habsolute hparent) (by omega)
      exact atOrAbove_of_parent? habsolute hparent h

/-- The ancestors of a path are the path itself and what lies above it. -/
theorem mem_ancestors_iff : dir ∈ path.ancestors ↔ dir.AtOrAbove path :=
  ⟨atOrAbove_of_mem_ancestorsUpTo habsolute,
    mem_ancestorsUpTo_of_atOrAbove habsolute (Nat.le_refl _)⟩

theorem pairwise_ancestorsUpTo (fuel : Nat) :
    (ancestorsUpTo fuel path).Pairwise fun inner outer => outer.LiesAbove inner := by
  induction fuel generalizing path with
  | zero => exact List.pairwise_singleton _ _
  | succ fuel ih =>
    rw [ancestorsUpTo]
    split
    · exact List.pairwise_singleton _ _
    · next parent hparent =>
      have habove := isAbsolute_of_parent? habsolute hparent
      refine List.pairwise_cons.2 ⟨fun dir hdir => ?_, ih habove⟩
      have hat := atOrAbove_of_mem_ancestorsUpTo habove hdir
      exact hat.trans_liesAbove (liesAbove_of_parent? habsolute hparent)

/-- Each ancestor lies above all that come before it. -/
theorem pairwise_ancestors : path.ancestors.Pairwise fun inner outer => outer.LiesAbove inner :=
  pairwise_ancestorsUpTo habsolute _

/-- What is found first among the ancestors is the nearest one that passes the test. -/
theorem find?_ancestors_eq_some_iff {test : Path → Bool} :
    path.ancestors.find? test = some dir ↔
      dir.AtOrAbove path ∧ test dir = true ∧
        ∀ nearer : Path, nearer.AtOrAbove path → dir.LiesAbove nearer → test nearer = false := by
  have hpairwise := pairwise_ancestors habsolute
  simp only [← mem_ancestors_iff habsolute]
  rw [List.find?_eq_some_iff_append]
  constructor
  · rintro ⟨hdir, before, after, hsplit, hbefore⟩
    rw [hsplit, List.pairwise_append] at hpairwise
    refine ⟨by simp [hsplit], hdir, fun nearer hnearer habove => ?_⟩
    rw [hsplit, List.mem_append, List.mem_cons] at hnearer
    obtain hnearer | rfl | hnearer := hnearer
    · simpa using hbefore nearer hnearer
    · exact absurd habove habove.asymm
    · -- What comes after it lies above it.
      exact absurd (List.rel_of_pairwise_cons hpairwise.2.1 hnearer) habove.asymm
  · rintro ⟨hmem, hdir, hnearest⟩
    obtain ⟨before, after, hsplit⟩ := List.append_of_mem hmem
    rw [hsplit, List.pairwise_append] at hpairwise
    refine ⟨hdir, before, after, hsplit, fun nearer hnearer => ?_⟩
    have habove := hpairwise.2.2 nearer hnearer dir List.mem_cons_self
    simp [hnearest nearer (by simp [hsplit, hnearer]) habove]

end Absolute

example : (Path.mk "/p//Core/./a/").ancestors =
    ([⟨"/p//Core/./a/"⟩, ⟨"/p//Core"⟩, ⟨"/p"⟩, ⟨"/"⟩] : List Path) := by
  decide +kernel

end Path

end EngineUpkeep
