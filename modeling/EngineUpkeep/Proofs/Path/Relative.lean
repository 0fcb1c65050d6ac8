import EngineUpkeep.Proofs.Path.Ends
import EngineUpkeep.Proofs.Path.Key
import EngineUpkeep.Proofs.Path.Stack
import EngineUpkeep.Proofs.Selection.Membership

/-!
# Paths relative to a root

What is left of a path when a root is taken off its front is text, and it is written as it stands in
the path. Still it names what the path names behind the root (`named_of_relativeTo?`), so joining it
to the root again leads back to what the path names (`components_join_of_relativeTo?`). If the path
is the root with a slash and plain names behind it, these names are left as they are written
(`relativeTo?_append`). In general what is left is what stands in the path behind some spelling of
the root (`IsRest`), if the path ends with a name (`relativeTo?_of_isRest`).

Slashes beside other slashes or at the end of an absolute path name nothing
(`components_of_reflTransGen`).
-/

namespace EngineUpkeep

/-- A text without the character that is to be replaced stays as it is. -/
theorem Text.replaceChar_of_notMem {text : Text} {old new : Char} (h : old ∉ text) :
    text.replaceChar old new = text := by
  have hkept : ∀ c ∈ text, (if c = old then new else c) = c := by
    intro c hc
    rw [if_neg]
    rintro rfl
    exact h hc
  rw [replaceChar, List.map_congr_left hkept, List.map_id']

namespace Path

variable {root path : Path} {pieces : List Text} {piece rest key text spelled : Text}

/-! ## Pieces that name nothing -/

theorem componentOf?_eq_none_of_isIdle (h : isIdle piece = true) : componentOf? piece = none := by
  rw [componentOf?, if_pos h]

theorem exists_componentOf? (h : isIdle piece = false) :
    ∃ component, componentOf? piece = some component := by
  rw [componentOf?, h, if_neg Bool.false_ne_true]
  split
  · exact ⟨_, rfl⟩
  · exact ⟨_, rfl⟩

/-- Pieces that name nothing are left out at the front without a change to what is named. -/
theorem filterMap_dropWhile_isIdle (pieces : List Text) :
    (pieces.dropWhile isIdle).filterMap componentOf? = pieces.filterMap componentOf? := by
  induction pieces with
  | nil => rfl
  | cons piece pieces ih =>
    rw [List.dropWhile_cons]
    split
    · next hidle => rw [ih, List.filterMap_cons_none (componentOf?_eq_none_of_isIdle hidle)]
    · rfl

/-- So they are at the end. -/
theorem filterMap_dropIdleEnd (pieces : List Text) :
    (dropIdleEnd pieces).filterMap componentOf? = pieces.filterMap componentOf? := by
  rw [dropIdleEnd, List.filterMap_reverse, filterMap_dropWhile_isIdle, List.filterMap_reverse,
    List.reverse_reverse]

/-- Names are not left out. -/
theorem dropWhile_isIdle_of_isPlain (h : ∀ piece ∈ pieces, IsPlain piece) :
    pieces.dropWhile isIdle = pieces := by
  cases pieces with
  | nil => rfl
  | cons piece pieces =>
    exact List.dropWhile_cons_of_neg (by simp [(h piece List.mem_cons_self).not_idle])

theorem dropIdleEnd_of_isPlain (h : ∀ piece ∈ pieces, IsPlain piece) :
    dropIdleEnd pieces = pieces := by
  have hreverse : ∀ piece ∈ pieces.reverse, IsPlain piece := fun piece hpiece =>
    h piece (List.mem_reverse.1 hpiece)
  rw [dropIdleEnd, dropWhile_isIdle_of_isPlain hreverse, List.reverse_reverse]

/-- The pieces after the first few that name something name the rest. -/
theorem filterMap_afterNamed (count : Nat) (pieces : List Text) :
    (afterNamed count pieces).filterMap componentOf? =
      (pieces.filterMap componentOf?).drop count := by
  induction pieces generalizing count with
  | nil => cases count <;> rfl
  | cons piece pieces ih =>
    cases count with
    | zero => rfl
    | succ count =>
      rw [afterNamed]
      -- The count goes down at a piece that names something and stays at every other one.
      cases hidle : isIdle piece with
      | true =>
        rw [if_pos rfl, ih, List.filterMap_cons_none (componentOf?_eq_none_of_isIdle hidle)]
      | false =>
        obtain ⟨component, hcomponent⟩ := exists_componentOf? hidle
        rw [if_neg Bool.false_ne_true, ih, List.filterMap_cons_some hcomponent,
          List.drop_succ_cons]

/-- What is left behind pieces, once all that they name is taken off, is what stands behind them. -/
theorem dropWhile_afterNamed_append (pieces more : List Text) :
    (afterNamed (pieces.filterMap componentOf?).length (pieces ++ more)).dropWhile isIdle =
      more.dropWhile isIdle := by
  induction pieces with
  | nil => rw [List.filterMap_nil, List.length_nil, List.nil_append, afterNamed]
  | cons piece pieces ih =>
    cases hidle : isIdle piece with
    | true =>
      rw [List.filterMap_cons_none (componentOf?_eq_none_of_isIdle hidle), ← ih, List.cons_append]
      -- With nothing to take off, the piece is left out at the front.
      cases (pieces.filterMap componentOf?).length with
      | zero => rw [afterNamed, afterNamed, List.dropWhile_cons_of_pos hidle]
      | succ count => rw [afterNamed, if_pos hidle]
    | false =>
      obtain ⟨component, hcomponent⟩ := exists_componentOf? hidle
      rw [List.filterMap_cons_some hcomponent, List.length_cons, List.cons_append, afterNamed,
        hidle, if_neg Bool.false_ne_true, ih]

/-- Joined pieces name what each of them names. -/
theorem named_join_pieces (h : ∀ piece ∈ pieces, '/' ∉ piece) :
    named (Text.join ['/'] pieces) = pieces.filterMap componentOf? := by
  by_cases hne : pieces = []
  · rw [hne]
    rfl
  · rw [named, Text.pieces_join hne h]

/-! ## What is left of a path -/

theorem startsHere_of_isAbsolute (h : path.isAbsolute = true) : path.startsHere = false := by
  rw [startsHere, h]
  rfl

/-- The pieces that are left of an absolute path when the components of the root are taken off. The
first of them is the root directory, which is not a piece. -/
def leftPieces (root path : Path) : List Text :=
  dropIdleEnd ((afterNamed (root.components.length - 1) path.body).dropWhile isIdle)

theorem leftPieces_subset (root path : Path) : leftPieces root path ⊆ path.body :=
  List.Subset.trans (dropIdleEnd_prefix_self _).subset
    (List.Subset.trans (List.dropWhile_suffix _).subset (afterNamed_suffix _ _).subset)

theorem slash_notMem_of_mem_leftPieces (h : piece ∈ leftPieces root path) : '/' ∉ piece :=
  slash_notMem_of_mem_body (leftPieces_subset root path h)

/-- The first piece that is left names something. -/
theorem not_idle_of_leftPieces {others : List Text} (h : leftPieces root path = piece :: others) :
    isIdle piece = false := by
  obtain ⟨more, hmore⟩ : leftPieces root path <+:
      (afterNamed (root.components.length - 1) path.body).dropWhile isIdle :=
    dropIdleEnd_prefix_self _
  have hfirst := List.head?_dropWhile_not isIdle
    (afterNamed (root.components.length - 1) path.body)
  rw [← hmore, h] at hfirst
  exact hfirst

section Absolute

variable (hroot : root.isAbsolute = true) (hpath : path.isAbsolute = true)
include hroot hpath

/-- Under an absolute root, these pieces are what is left of a path. -/
theorem relativeTo?_eq_some (hunder : root.components <+: path.components) :
    relativeTo? root path = some (Text.join ['/'] (leftPieces root path)) := by
  have hhere := startsHere_of_isAbsolute hpath
  have htail : path.tail = path.body := by rw [tail, if_neg (by simp [hhere])]
  have hanchor : path.anchor.length = 1 := by rw [anchor, if_pos hpath, List.length_singleton]
  -- So one component less than the root has is taken off the pieces.
  have hcomponents := components_of_isAbsolute hroot
  rw [relativeTo?, List.isPrefixOf_iff_prefix.2 hunder, leftPieces, htail, hanchor]
  simp [hcomponents]

/-- What is left of a path under the root is written in these pieces. -/
theorem eq_join_of_relativeTo? (h : relativeTo? root path = some rest) :
    root.components <+: path.components ∧ rest = Text.join ['/'] (leftPieces root path) := by
  have hunder : root.components <+: path.components :=
    exists_key?_iff.1 ⟨_, Option.map_eq_some_iff.2 ⟨rest, h, rfl⟩⟩
  rw [relativeTo?_eq_some hroot hpath hunder] at h
  exact ⟨hunder, (Option.some.inj h).symm⟩

/-- What is left of a path is no absolute path: the first piece that is left is not empty. -/
theorem isAbsolute_eq_false_of_relativeTo? (h : relativeTo? root path = some rest) :
    (Path.mk rest).isAbsolute = false := by
  obtain ⟨-, rfl⟩ := eq_join_of_relativeTo? hroot hpath h
  rw [isAbsolute, decide_eq_false_iff_not, List.head?_eq_some_iff]
  rintro ⟨text, htext : Text.join ['/'] (leftPieces root path) = '/' :: text⟩
  have hne : leftPieces root path ≠ [] := by
    intro hnil
    rw [hnil] at htext
    cases htext
  -- The slash would have an empty piece in front of it.
  have hpieces := Text.pieces_join hne fun piece => slash_notMem_of_mem_leftPieces
  rw [htext, Text.pieces, if_pos rfl] at hpieces
  cases not_idle_of_leftPieces hpieces.symm

/-- What is left of a path names what the path names behind the root. -/
theorem named_of_relativeTo? (h : relativeTo? root path = some rest) :
    path.components = root.components ++ named rest := by
  obtain ⟨hunder, rfl⟩ := eq_join_of_relativeTo? hroot hpath h
  -- The root directory is a component of the root, so it is among what is taken off.
  have hcount : root.components.length = root.components.length - 1 + 1 := by
    rw [components_of_isAbsolute hroot, List.length_cons, Nat.add_sub_cancel]
  have hleft : named (Text.join ['/'] (leftPieces root path)) =
      path.components.drop root.components.length := by
    rw [named_join_pieces fun piece => slash_notMem_of_mem_leftPieces, leftPieces,
      filterMap_dropIdleEnd, filterMap_dropWhile_isIdle, filterMap_afterNamed,
      components_eq_cons hpath, hcount, List.drop_succ_cons, Nat.add_sub_cancel]
  rw [hleft]
  exact List.prefix_iff_eq_append.1 hunder |>.symm

/-- What is left of a path, joined to the root again, leads back to what the path names. -/
theorem components_join_of_relativeTo? (h : relativeTo? root path = some rest) :
    (root.join ⟨rest⟩).components = path.components := by
  rw [components_join hroot (isAbsolute_eq_false_of_relativeTo? hroot hpath h),
    named_of_relativeTo? hroot hpath h]

end Absolute

theorem components_append_slash (hroot : root.isAbsolute = true) (rest : Text) :
    (Path.mk (root.text ++ '/' :: rest)).components = root.components ++ named rest := by
  rw [components_of_isAbsolute (isAbsolute_append hroot _), components_of_isAbsolute hroot,
    named_append_slash, List.cons_append]

theorem body_append_slash (hroot : root.isAbsolute = true) (rest : Text) :
    (Path.mk (root.text ++ '/' :: rest)).body = root.body ++ Text.pieces rest '/' := by
  rw [body_eq, body_eq, withoutRoot_append (text_ne_nil_of_isAbsolute hroot),
    Text.pieces_append_cons]

/-- Plain names behind a root and a slash are left as they are written. -/
theorem relativeTo?_append (hroot : root.isAbsolute = true)
    (hplain : ∀ piece ∈ Text.pieces rest '/', IsPlain piece) :
    relativeTo? root ⟨root.text ++ '/' :: rest⟩ = some rest := by
  have hunder : root.components <+: (Path.mk (root.text ++ '/' :: rest)).components := by
    rw [components_append_slash hroot]
    exact List.prefix_append _ _
  -- No name at either end is idle, so all of them are left.
  have hleft : leftPieces root ⟨root.text ++ '/' :: rest⟩ = Text.pieces rest '/' := by
    rw [leftPieces, body_append_slash hroot, components_eq_cons hroot, List.length_cons,
      Nat.add_sub_cancel, dropWhile_afterNamed_append, dropWhile_isIdle_of_isPlain hplain,
      dropIdleEnd_of_isPlain hplain]
  rw [relativeTo?_eq_some hroot (isAbsolute_append hroot _) hunder, hleft, Text.join_pieces]

/-! ## What is written behind a root -/

/-- What is written behind a root in a text: in front of it stands the root, however this is
spelled, and it begins with a name, unless it is empty. -/
def IsRest (root : Path) (text rest : Text) : Prop :=
  ∃ front, text = front ++ rest ∧ (Path.mk front).components = root.components ∧
    (rest = [] ∨ front.getLast? = some '/' ∧
      ∃ name ∈ (Text.pieces rest '/').head?, isIdle name = false)

theorem IsRest.isSuffix (h : IsRest root text rest) : rest <:+ text := by
  obtain ⟨front, rfl, -⟩ := h
  exact List.suffix_append front rest

/-- Whether something is written behind a root is decidable. -/
instance instDecidableIsRest (root : Path) (text rest : Text) :
    Decidable (IsRest root text rest) :=
  decidable_of_iff (∃ front ∈ text.inits, text = front ++ rest ∧
      (Path.mk front).components = root.components ∧
      (rest = [] ∨ front.getLast? = some '/' ∧
        ∃ name ∈ (Text.pieces rest '/').head?, isIdle name = false)) <| by
    constructor
    · rintro ⟨front, -, hfront⟩
      exact ⟨front, hfront⟩
    · rintro ⟨front, rfl, hfront⟩
      exact ⟨front, (List.mem_inits _ _).2 (List.prefix_append _ _), rfl, hfront⟩

theorem dropIdleEnd_of_getLast? (h : ∀ last ∈ pieces.getLast?, isIdle last = false) :
    dropIdleEnd pieces = pieces := by
  rcases List.eq_nil_or_concat' pieces with rfl | ⟨before, last, rfl⟩
  · rfl
  · have hlast : isIdle last = false := h last (by simp)
    rw [dropIdleEnd, List.reverse_append, List.reverse_singleton, List.singleton_append,
      List.dropWhile_cons_of_neg (by simp [hlast]), List.reverse_cons, List.reverse_reverse]

/-- Behind a slash, an absolute path goes on with pieces of its own. -/
theorem exists_body_append (habsolute : (Path.mk text).isAbsolute = true)
    (hslash : text.getLast? = some '/') (rest : Text) :
    ∃ before, (Path.mk (text ++ rest)).body = before ++ Text.pieces rest '/' ∧
      before.filterMap componentOf? = (Path.mk text).body.filterMap componentOf? := by
  obtain ⟨front, hfront⟩ : ∃ front, text = front ++ ['/'] := by
    rw [List.getLast?_eq_some_iff] at hslash
    exact hslash
  rw [body_eq, body_eq, withoutRoot_append (text_ne_nil_of_isAbsolute habsolute)]
  cases front with
  | nil =>
    rw [hfront]
    exact ⟨[], rfl, rfl⟩
  | cons c front =>
    have htext : withoutRoot text = withoutRoot (c :: front) ++ ['/'] := by
      rw [hfront, withoutRoot_append (List.cons_ne_nil c front)]
    refine ⟨Text.pieces (withoutRoot (c :: front)) '/', ?_, ?_⟩
    · rw [htext, List.append_assoc, List.singleton_append, Text.pieces_append_cons]
    · rw [htext, Text.pieces_append_cons, List.filterMap_append]
      exact (List.append_nil _).symm

/-- Joined pieces begin with a text that names what the first of them name, and ends in a slash. -/
theorem exists_join_append {more : List Text} (h : ∀ piece ∈ pieces, '/' ∉ piece)
    (hmore : more ≠ []) :
    ∃ front, '/' :: Text.join ['/'] (pieces ++ more) = front ++ Text.join ['/'] more ∧
      (Path.mk front).components = .root :: pieces.filterMap componentOf? ∧
      front.getLast? = some '/' := by
  by_cases hne : pieces = []
  · rw [hne]
    exact ⟨['/'], rfl, rfl, rfl⟩
  · refine ⟨'/' :: (Text.join ['/'] pieces ++ ['/']), ?_, ?_, ?_⟩
    · simp [Text.join_append ['/'] hne hmore]
    · have hnamed : named ('/' :: (Text.join ['/'] pieces ++ ['/'])) =
          pieces.filterMap componentOf? := by
        rw [← named_join_pieces h]
        exact (named_append_slash [] _).trans
          ((named_append_slash (Text.join ['/'] pieces) []).trans (List.append_nil _))
      rw [components_of_isAbsolute rfl, hnamed]
    · rw [← List.cons_append, List.getLast?_concat]

section Absolute

variable (hroot : root.isAbsolute = true)
include hroot

/-- What is written behind a root is what is left of the path, if the path ends with a name. -/
theorem relativeTo?_of_isRest (h : IsRest root text rest)
    (hend : rest ≠ [] → ∀ last ∈ (Text.pieces rest '/').getLast?, isIdle last = false) :
    relativeTo? root ⟨text⟩ = some rest := by
  obtain ⟨front, rfl, hfront, hrest⟩ := h
  have habsolute : (Path.mk front).isAbsolute = true := by
    rw [← root_mem_components_iff, hfront, root_mem_components_iff]
    exact hroot
  have hall : (Path.mk (front ++ rest)).isAbsolute = true := isAbsolute_append habsolute rest
  -- The names of the root are those that stand in front.
  have hcount : root.components.length - 1 =
      ((Path.mk front).body.filterMap componentOf?).length := by
    rw [← hfront, components_eq_cons habsolute, List.length_cons, Nat.add_sub_cancel]
  obtain rfl | ⟨hslash, name, hname, hidle⟩ := hrest
  · have hleft : leftPieces root ⟨front ++ []⟩ = [] := by
      have hnothing := dropWhile_afterNamed_append (Path.mk front).body []
      rw [List.append_nil] at hnothing
      rw [leftPieces, hcount, List.append_nil, hnothing]
      rfl
    rw [relativeTo?_eq_some hroot hall, hleft]
    · rfl
    · rw [List.append_nil, hfront]
  · obtain ⟨before, hbody, hnamed⟩ := exists_body_append habsolute hslash rest
    have hne : rest ≠ [] := by
      rintro rfl
      cases hname
      cases hidle
    have hstarts : (Text.pieces rest '/').dropWhile isIdle = Text.pieces rest '/' := by
      obtain ⟨others, hpieces⟩ := List.head?_eq_some_iff.1 hname
      rw [hpieces, List.dropWhile_cons_of_neg (by simp [hidle])]
    have hleft : leftPieces root ⟨front ++ rest⟩ = Text.pieces rest '/' := by
      rw [leftPieces, hcount, ← hnamed, hbody, dropWhile_afterNamed_append, hstarts,
        dropIdleEnd_of_getLast? (hend hne)]
    rw [relativeTo?_eq_some hroot hall, hleft, Text.join_pieces]
    rw [← hfront, components_eq_cons habsolute, components_eq_cons hall, hbody,
      List.filterMap_append, hnamed, ← List.cons_append]
    exact List.prefix_append _ _

/-- Something is written behind a root in every path under it. -/
theorem exists_isRest (hunder : root.components <+: (Path.mk text).components) :
    ∃ rest, IsRest root text rest := by
  have habsolute : (Path.mk text).isAbsolute = true :=
    root_mem_components_iff.1 (hunder.mem (root_mem_components_iff.2 hroot))
  obtain ⟨more, hmore⟩ := hunder
  rw [components_eq_cons hroot, components_eq_cons habsolute, List.cons_append,
    List.cons.injEq] at hmore
  -- The pieces that are left once the names of the root are passed, and those in front of them.
  generalize hleft : (afterNamed (root.body.filterMap componentOf?).length
    (Path.mk text).body).dropWhile isIdle = left
  obtain ⟨skipped, hskipped⟩ : left <:+ (Path.mk text).body :=
    hleft ▸ (List.dropWhile_suffix _).trans (afterNamed_suffix _ _)
  have hnamedLeft : left.filterMap componentOf? = more := by
    rw [← hleft, filterMap_dropWhile_isIdle, filterMap_afterNamed, ← hmore.2, List.drop_left]
  have hnamed : skipped.filterMap componentOf? = root.body.filterMap componentOf? := by
    have hboth := hmore.2
    rw [← hskipped, List.filterMap_append, hnamedLeft] at hboth
    exact (List.append_cancel_right hboth).symm
  have hfirst : ∀ name ∈ left.head?, isIdle name = false := by
    intro name hname
    have hnot := List.head?_dropWhile_not isIdle
      (afterNamed (root.body.filterMap componentOf?).length (Path.mk text).body)
    rw [hleft, hname] at hnot
    exact hnot
  have htext : text = '/' :: Text.join ['/'] (skipped ++ left) := by
    rw [hskipped]
    exact (text_eq ⟨text⟩).trans (by rw [if_pos habsolute]; rfl)
  by_cases hempty : left = []
  · refine ⟨[], text, (List.append_nil text).symm, ?_, .inl rfl⟩
    rw [components_eq_cons habsolute, components_eq_cons hroot, ← hskipped, hempty,
      List.append_nil, hnamed]
  · have hskippedSlash : ∀ piece ∈ skipped, '/' ∉ piece := fun piece hpiece =>
      slash_notMem_of_mem_body (hskipped ▸ List.mem_append_left left hpiece)
    have hleftSlash : ∀ piece ∈ left, '/' ∉ piece := fun piece hpiece =>
      slash_notMem_of_mem_body (hskipped ▸ List.mem_append_right skipped hpiece)
    obtain ⟨front, hfront, hcomponents, hslash⟩ := exists_join_append hskippedSlash hempty
    refine ⟨Text.join ['/'] left, front, htext.trans hfront, ?_, .inr ⟨hslash, ?_⟩⟩
    · rw [hcomponents, hnamed, components_eq_cons hroot]
    · obtain ⟨name, others, rfl⟩ := List.exists_cons_of_ne_nil hempty
      rw [Text.pieces_join hempty hleftSlash]
      exact ⟨name, rfl, hfirst name rfl⟩

end Absolute

/-! ## Keys -/

/-- The key of a path without a backslash is what is left of the path. -/
theorem relativeTo?_of_key? (hbackslash : '\\' ∉ path.text) (h : key? root path = some key) :
    relativeTo? root path = some key := by
  obtain ⟨rest, hrest, rfl⟩ := Option.map_eq_some_iff.1 h
  have hrestBackslash : '\\' ∉ rest :=
    notMem_of_relativeTo? (by decide) hbackslash (by decide) hrest
  rw [hrest, Text.replaceChar_of_notMem hrestBackslash]

/-- Plain names without a backslash are their own key. -/
theorem key?_append (hroot : root.isAbsolute = true)
    (hplain : ∀ piece ∈ Text.pieces rest '/', IsPlain piece) (hbackslash : '\\' ∉ rest) :
    key? root ⟨root.text ++ '/' :: rest⟩ = some rest := by
  rw [key?, relativeTo?_append hroot hplain, Option.map_some, Text.replaceChar_of_notMem hbackslash]

/-- Under an absolute root, a relative path has no key. -/
theorem key?_eq_none (hroot : root.isAbsolute = true) (hpath : path.isAbsolute = false) :
    key? root path = none := by
  rw [Option.eq_none_iff_forall_ne_some]
  intro key hkey
  have hmem := (exists_key?_iff.1 ⟨key, hkey⟩).mem (root_mem_components_iff.2 hroot)
  rw [root_mem_components_iff, hpath] at hmem
  cases hmem

/-! ## Slashes -/

/-- The second text is the first with one slash more, beside a slash or at the end. -/
inductive AddsSlash : Text → Text → Prop where
  /-- A slash is doubled. -/
  | doubled (before after : Text) :
    AddsSlash (before ++ '/' :: after) (before ++ '/' :: '/' :: after)
  /-- A slash is put behind everything. -/
  | trailing (text : Text) : AddsSlash text (text ++ ['/'])

theorem named_of_addsSlash (h : AddsSlash text spelled) : named spelled = named text := by
  cases h with
  | doubled before after =>
    rw [named_append_slash, named_append_slash]
    exact congrArg (named before ++ ·) (named_append_slash [] after)
  | trailing =>
    rw [named_append_slash]
    exact List.append_nil _

theorem isAbsolute_of_addsSlash (h : AddsSlash text spelled)
    (habsolute : (Path.mk text).isAbsolute = true) : (Path.mk spelled).isAbsolute = true := by
  cases h with
  | doubled before after => cases before <;> exact habsolute
  | trailing => exact isAbsolute_append habsolute ['/']

/-- Slashes at the end of an absolute path or beside other ones do not change what it names. -/
theorem components_of_reflTransGen (h : Relation.ReflTransGen AddsSlash path.text spelled)
    (habsolute : path.isAbsolute = true) :
    (Path.mk spelled).isAbsolute = true ∧ (Path.mk spelled).components = path.components := by
  induction h with
  | refl => exact ⟨habsolute, rfl⟩
  | tail _ hstep ih =>
    have hspelled := isAbsolute_of_addsSlash hstep ih.1
    refine ⟨hspelled, ?_⟩
    rw [← ih.2, components_of_isAbsolute hspelled, components_of_isAbsolute ih.1,
      named_of_addsSlash hstep]

end Path

end EngineUpkeep
