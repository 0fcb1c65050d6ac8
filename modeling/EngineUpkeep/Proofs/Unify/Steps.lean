import EngineUpkeep.Proofs.FileTree.Below
import EngineUpkeep.Proofs.Unify.ListedPath
import EngineUpkeep.Unify.Basic

/-!
# What steps change

An edit writes over the file that is the list and leaves everything else (`editFile_eq`). A run of
edits, whether or not it gets to its end, leaves the shape of the tree and all files that are no
list of it (`editedAt_performAll`). A copy of a file stays where nothing but more comes to the tree
(`copy?_of_extends`). Where the trees of a checkout are apart, each copy has a place of its own
(`TreesApart.reaches`).
-/

namespace EngineUpkeep

open FileTree

variable {tree after : FileTree} {current : Location} {checkout : Checkout} {source : SourceTree}
  {file : Text}

namespace SourceTree

/-- The trees of the variants. -/
def variants : List SourceTree := [.generals, .zeroHour]

/-- Two trees that are each other's counterparts are those of the variants. -/
theorem counterpart_cases {source other : SourceTree} (h : source.counterpart = .ok other) :
    source ≠ other ∧ source ∈ variants ∧ other ∈ variants := by
  cases source with
  | generals => cases h; simp [variants]
  | zeroHour => cases h; simp [variants]
  | core => cases h

/-- There are no more than two variants. -/
theorem eq_of_ne_counterpart {source other variant : SourceTree}
    (h : source.counterpart = .ok other)
    (hvariant : variant ∈ variants) (hne : variant ≠ other) : variant = source := by
  cases source <;> cases h <;> cases variant <;> simp [variants] at hvariant hne ⊢

theorem ne_core_of_mem_variants {source : SourceTree} (h : source ∈ variants) : source ≠ .core := by
  rintro rfl
  simp [variants] at h

/-- All source trees. -/
def all : List SourceTree := [.generals, .zeroHour, .core]

theorem mem_all (source : SourceTree) : source ∈ all := by
  cases source <;> simp [all]

end SourceTree

/-- The content of a file of a tree, if the path of the file leads to a regular file. -/
def Checkout.copy? (checkout : Checkout) (current : Location) (tree : FileTree)
    (source : SourceTree) (file : Text) : Option Content :=
  match tree.readFile current (checkout.pathIn source file) with
  | .ok (content, _) => some content
  | .error _ => none

/-- The entry after an edit of a build list. -/
def Entry.toggled (needle : Text) (edit : LineEdit) : Entry → Entry
  | .file (.text chars) runnable =>
    .file (.text (BuildList.toggle needle edit chars).1) runnable
  | entry => entry

namespace BuildList

/-- An edit puts the toggled text where the list is. -/
theorem editFile_eq {path : Path} {location : Location} {chars : Text} {runnable : Bool}
    (hfind : tree.find current path = .ok location)
    (hentry : tree.entryAt? location = some (.file (.text chars) runnable))
    (hslash : path.hasSlashEnd = false) (needle : Text) (edit : LineEdit) :
    editFile tree current path needle edit =
      (tree.put location (.file (.text (toggle needle edit chars).1) runnable),
        .ok (toggle needle edit chars).2) := by
  have hread : tree.readText current path = .ok chars :=
    readText_eq_ok_iff.2 ⟨location, runnable, hfind, hentry⟩
  have hwrite := write_file hfind hentry hslash (.text (toggle needle edit chars).1) none
  simp only [editFile, hread, hwrite, Option.getD_none]

/-- An edit changes nothing, or the file that is the list and nothing else. -/
theorem editFile_cases (tree : FileTree) (current : Location) (path : Path) (needle : Text)
    (edit : LineEdit) :
    (editFile tree current path needle edit).1 = tree ∨
      ∃ location chars chars' runnable, tree.find current path = .ok location ∧
        tree.entryAt? location = some (.file (.text chars) runnable) ∧
        (editFile tree current path needle edit).1 =
          tree.put location (.file (.text chars') runnable) := by
  rcases hread : tree.readText current path with fault | chars
  · exact .inl (by simp only [editFile, hread])
  · obtain ⟨location, runnable, hfind, hentry⟩ := readText_eq_ok_iff.1 hread
    cases hslash : path.hasSlashEnd with
    | true => exact .inl (by simp [editFile, hread, write, hslash])
    | false =>
      refine .inr ⟨location, chars, (toggle needle edit chars).1, runnable, hfind, hentry, ?_⟩
      rw [editFile_eq hfind hentry hslash]

end BuildList

namespace UnifyStep

/-- The build list that a step edits. -/
def list? (checkout : Checkout) : UnifyStep → Option Path
  | .toggle tree group _ _ => some (checkout.listPath tree group)
  | _ => none

/-- The step edits a build list. -/
def isEdit : UnifyStep → Bool
  | .toggle _ _ _ _ => true
  | _ => false

end UnifyStep

namespace Unify

/-! ## Copies -/

theorem copy?_eq_some_iff {content : Content} :
    checkout.copy? current tree source file = some content ↔
      ∃ runnable,
        tree.readFile current (checkout.pathIn source file) = .ok (content, runnable) := by
  rw [Checkout.copy?]
  rcases tree.readFile current (checkout.pathIn source file) with fault | ⟨content', runnable⟩ <;>
    simp

theorem copy?_of_extends (h : Extends tree after) {content : Content}
    (hcopy : checkout.copy? current tree source file = some content) :
    checkout.copy? current after source file = some content := by
  obtain ⟨runnable, hread⟩ := copy?_eq_some_iff.1 hcopy
  exact copy?_eq_some_iff.2 ⟨runnable, h.readFile_eq hread⟩

/-! ## Edits -/

/-- Trees that differ at most in the files at which a path of `lists` leads to one. -/
structure EditedAt (current : Location) (lists : List Path) (tree after : FileTree) : Prop where
  /-- The trees have the same shape. -/
  sameShape : SameShape tree after
  /-- The same directories are sealed. -/
  isSealed_eq : after.isSealed = tree.isSealed
  /-- Where no list is, there is no difference. -/
  entryAt?_eq : ∀ location, (∀ list ∈ lists, tree.find current list ≠ .ok location) →
    after.entryAt? location = tree.entryAt? location

theorem EditedAt.refl (current : Location) (lists : List Path) (tree : FileTree) :
    EditedAt current lists tree tree :=
  ⟨SameShape.refl tree, rfl, fun _ _ => rfl⟩

theorem EditedAt.trans {lists lists' : List Path} {middle : FileTree}
    (h : EditedAt current lists tree middle) (h' : EditedAt current lists' middle after) :
    EditedAt current (lists ++ lists') tree after := by
  refine ⟨h.sameShape.trans h'.sameShape, h'.isSealed_eq.trans h.isSealed_eq,
    fun location hlists => ?_⟩
  rw [h'.entryAt?_eq location, h.entryAt?_eq location]
  · exact fun list hlist => hlists list (List.mem_append_left _ hlist)
  · intro list hlist
    rw [h.sameShape.find_eq]
    exact hlists list (List.mem_append_right _ hlist)

/-- A file that no list leads to is read as before. -/
theorem EditedAt.readFile_eq {lists : List Path} (h : EditedAt current lists tree after)
    {path : Path} {content : Content} {runnable : Bool}
    (hread : tree.readFile current path = .ok (content, runnable))
    (hlists : ∀ list ∈ lists, tree.find current list ≠ tree.find current path) :
    after.readFile current path = .ok (content, runnable) := by
  obtain ⟨location, hfind, hentry⟩ := readFile_eq_ok_iff.1 hread
  refine readFile_eq_ok_iff.2 ⟨location, (h.sameShape.find_eq _ _).trans hfind, ?_⟩
  rw [h.entryAt?_eq location fun list hlist => hfind ▸ hlists list hlist]
  exact hentry

theorem editedAt_perform {step : UnifyStep} (hstep : step.isEdit = true) :
    EditedAt current (step.list? checkout).toList tree (perform checkout current tree step).1 := by
  cases step with
  | toggle source group entry edit =>
    have hperform : (perform checkout current tree (.toggle source group entry edit)).1 =
        (BuildList.editFile tree current (checkout.listPath source group) entry edit).1 := by
      rw [perform]
      rcases BuildList.editFile tree current (checkout.listPath source group) entry edit with
        ⟨changed, failure | count⟩ <;> rfl
    rw [hperform]
    obtain hsame | ⟨location, chars, chars', runnable, hfind, hentry, hput⟩ :=
      BuildList.editFile_cases tree current (checkout.listPath source group) entry edit
    · rw [hsame]
      exact EditedAt.refl _ _ _
    · -- The list is a file, and the edit writes over it.
      rw [hput]
      refine ⟨sameShape_put_file hentry, isSealed_put (by simp [hentry]) (by simp),
        fun other hother => ?_⟩
      have hne : location ≠ [] := ne_nil_of_entryAt?_ne tree (by simp [hentry])
      rw [entryAt?_put _ _ _ _ hne, if_neg]
      rintro rfl
      exact hother _ (by simp [UnifyStep.list?]) hfind
  | delete source file => cases hstep
  | prepare source file => cases hstep
  | move source sourceFile target targetFile => cases hstep

/-- Edits change the lists and nothing else, whether or not all of them can be done. -/
theorem editedAt_performAll {steps : List UnifyStep}
    (hsteps : ∀ step ∈ steps, step.isEdit = true) :
    EditedAt current (steps.filterMap (·.list? checkout)) tree
      (performAll checkout current tree steps).1 := by
  induction steps generalizing tree with
  | nil => exact EditedAt.refl _ _ _
  | cons step steps ih =>
    have hstep : EditedAt current (step.list? checkout).toList tree
        (perform checkout current tree step).1 := editedAt_perform (hsteps step (by simp))
    have hlists : (step :: steps).filterMap (·.list? checkout) =
        (step.list? checkout).toList ++ steps.filterMap (·.list? checkout) := by
      rw [List.filterMap_cons]
      cases step.list? checkout <;> rfl
    rw [performAll, hlists]
    rcases hperform : perform checkout current tree step with ⟨changed, failure | ⟨⟨⟩⟩⟩
    · -- The step failed, so the lists of the others are as they were.
      rw [hperform] at hstep
      exact hstep.trans (EditedAt.refl _ _ _)
    · rw [hperform] at hstep
      exact hstep.trans (ih fun other hother => hsteps other (by simp [hother]))

/-- The path leads to a file of text, as that of a build list has to. -/
structure ListAt (tree : FileTree) (current : Location) (path : Path) (location : Location) :
    Prop where
  /-- The path leads here. -/
  find_eq : tree.find current path = .ok location
  /-- A file of text is here. -/
  text : ∃ chars runnable, tree.entryAt? location = some (.file (.text chars) runnable)

theorem ListAt.ne_nil {path : Path} {location : Location} (h : ListAt tree current path location) :
    location ≠ [] := by
  obtain ⟨chars, runnable, hentry⟩ := h.text
  exact ne_nil_of_entryAt?_ne tree (by simp [hentry])

/-- A list is still there when others have been edited. -/
theorem ListAt.of_sameShape {path : Path} {location : Location}
    (h : ListAt tree current path location) (hshape : SameShape tree after)
    (hsame : after.entryAt? location = tree.entryAt? location) :
    ListAt after current path location :=
  ⟨(hshape.find_eq current path).trans h.find_eq, hsame ▸ h.text⟩

/-- An edit of a list that is there succeeds and changes the list alone. -/
theorem ListAt.perform_toggle {group : Text} {location : Location}
    (h : ListAt tree current (checkout.listPath source group) location)
    (hgrounded : IsGrounded tree current) (entry : Text) (edit : LineEdit) :
    ∃ after, perform checkout current tree (.toggle source group entry edit) = (after, .ok ()) ∧
      SameShape tree after ∧ after.isSealed = tree.isSealed ∧
      ∀ other, after.entryAt? other =
        if other = location then (tree.entryAt? other).map (Entry.toggled entry edit)
        else tree.entryAt? other := by
  obtain ⟨chars, runnable, hentry⟩ := h.text
  have hslash := hgrounded.hasSlashEnd_of_find h.find_eq (by simp [hentry])
  refine ⟨tree.put location (.file (.text (BuildList.toggle entry edit chars).1) runnable), ?_,
    sameShape_put_file hentry, isSealed_put (by simp [hentry]) (by simp), fun other => ?_⟩
  · rw [perform, BuildList.editFile_eq h.find_eq hentry hslash]
  · rw [entryAt?_put _ _ _ _ h.ne_nil]
    split
    · next heq =>
      rw [heq, hentry]
      rfl
    · rfl

/-! ## Trees that are apart -/

theorem pathIn_eq_below (checkout : Checkout) (source : SourceTree) (file : Text) :
    checkout.pathIn source file = (checkout.rootOf source).below (Text.pieces file '/') := by
  rw [Checkout.pathIn, Path.below, Text.join_pieces]

/-- A path with a group has the group for its first name. -/
theorem pieces_of_ofText {listed : ListedPath} (h : ListedPath.ofText file = .ok listed) :
    Text.pieces file '/' = listed.group :: Text.pieces listed.entry '/' := by
  obtain ⟨-, hslash, rfl⟩ := ListedPath.ofText_eq_ok_iff.1 h
  rw [Text.pieces_append_cons, Text.pieces_of_notMem hslash]
  rfl

/-- So it has a name above its last one. -/
theorem exists_pieces_of_ofText {listed : ListedPath} (h : ListedPath.ofText file = .ok listed) :
    ∃ before last, before ≠ [] ∧ Text.pieces file '/' = before ++ [last] := by
  obtain ⟨before, last, hlast⟩ := (List.eq_nil_or_concat' (Text.pieces listed.entry '/')).resolve_left
    (Text.pieces_ne_nil listed.entry '/')
  exact ⟨listed.group :: before, last, by simp, by rw [pieces_of_ofText h, hlast]; rfl⟩

/-- Where a file of a tree stands, if the tree stands at its base. -/
def placeOf (bases : SourceTree → Location) (source : SourceTree) (file : Text) : Location :=
  bases source ++ Text.pieces file '/'

theorem prefix_placeOf (bases : SourceTree → Location) (source : SourceTree) (file : Text) :
    bases source <+: placeOf bases source file :=
  List.prefix_append _ _

theorem placeOf_ne_nil (bases : SourceTree → Location) (source : SourceTree) (file : Text) :
    placeOf bases source file ≠ [] := by
  simp [placeOf, Text.pieces_ne_nil file '/']

/-- Of trees none of which is inside another, one location is inside one. -/
theorem eq_of_prefix_of_apart {bases : SourceTree → Location}
    (hapart : ∀ source other, bases source <+: bases other → source = other)
    {first second : SourceTree} {location : Location} (hfirst : bases first <+: location)
    (hsecond : bases second <+: location) : first = second := by
  obtain hwithin | hwithin := List.prefix_or_prefix_of_prefix hfirst hsecond
  · exact hapart first second hwithin
  · exact (hapart second first hwithin).symm

/-- The trees of a checkout are directories without links in them, and none is inside another. -/
structure TreesApart (checkout : Checkout) (current : Location) (tree : FileTree)
    (bases : SourceTree → Location) : Prop where
  /-- Each source tree is a directory. -/
  root : ∀ source, RootAt tree current (checkout.rootOf source) (bases source)
  /-- No source tree is inside another. -/
  apart : ∀ source other, bases source <+: bases other → source = other
  /-- There are no links in the source trees. -/
  no_link : ∀ source location target, bases source <+: location →
    tree.entryAt? location ≠ some (.link target)

section Apart

variable {bases : SourceTree → Location} (h : TreesApart checkout current tree bases)
include h

/-- Where one location is inside two trees, these are one. -/
theorem TreesApart.eq_of_prefix {first second : SourceTree} {location : Location}
    (hfirst : bases first <+: location) (hsecond : bases second <+: location) : first = second :=
  eq_of_prefix_of_apart h.apart hfirst hsecond

/-- The places of files of two trees are apart. -/
theorem TreesApart.placeOf_ne {first second : SourceTree} (hne : first ≠ second)
    (text text' : Text) : placeOf bases first text ≠ placeOf bases second text' := by
  intro heq
  apply hne
  exact h.eq_of_prefix (prefix_placeOf bases first text) (heq ▸ prefix_placeOf bases second text')

/-- A copy is reached at its place. -/
theorem TreesApart.reaches (hplain : ∀ name ∈ Text.pieces file '/', Path.IsPlain name)
    (hcopy : (checkout.copy? current tree source file).isSome) :
    Reaches tree current (checkout.rootOf source) (bases source) (Text.pieces file '/') ∧
      ∃ content runnable,
        tree.entryAt? (placeOf bases source file) = some (.file content runnable) := by
  obtain ⟨content, hcontent⟩ := Option.isSome_iff_exists.1 hcopy
  obtain ⟨runnable, hread⟩ := copy?_eq_some_iff.1 hcontent
  rw [pathIn_eq_below] at hread
  obtain ⟨hreaches, hentry⟩ := (h.root source).reaches_of_readFile (Text.pieces_ne_nil file '/')
    hplain (fun location target hbase _ => h.no_link source location target hbase) hread
  exact ⟨hreaches, content, runnable, hentry⟩

/-- What the path of a file names stands at the place of the file. -/
theorem TreesApart.append_of_slot (hplain : ∀ name ∈ Text.pieces file '/', Path.IsPlain name)
    {directory : Location} {name : Text}
    (hslot : tree.slot current (checkout.pathIn source file) = .ok (directory, name)) :
    directory ++ [name] = placeOf bases source file := by
  obtain ⟨names, last, hpieces⟩ := (List.eq_nil_or_concat' (Text.pieces file '/')).resolve_left
    (Text.pieces_ne_nil file '/')
  rw [hpieces] at hplain
  rw [pathIn_eq_below, hpieces] at hslot
  obtain ⟨husable, -⟩ := slot_eq_ok_iff.1 hslot
  obtain ⟨jump, hdirectory, -⟩ := (h.root source).exists_slot_below hplain husable
  obtain ⟨hwalk, -, -, rfl⟩ := (hdirectory _ _).1 hslot
  obtain ⟨rfl, -⟩ := found_of_walkWith (fun other hother => hplain other (by simp [hother]))
    (h.root source).directory (fun location target hbase _ => h.no_link source location target hbase)
    hwalk
  rw [placeOf, hpieces, List.append_assoc]

/-- Deleting a file of one tree leaves the copy of another. -/
theorem TreesApart.entryOf_delete {other : SourceTree} (hne : source ≠ other)
    (hplain : ∀ name ∈ Text.pieces file '/', Path.IsPlain name)
    (hcopy : (checkout.copy? current tree source file).isSome)
    (hdelete : tree.delete current (checkout.pathIn other file) = .ok after) :
    after.entryOf current (checkout.pathIn source file) =
      tree.entryOf current (checkout.pathIn source file) := by
  obtain ⟨hreaches, content, runnable, hfile⟩ := h.reaches hplain hcopy
  obtain ⟨directory, name, entry, hslot, hentry, hdirectory, -, -, rfl⟩ :=
    delete_eq_ok_iff.1 hdelete
  rw [h.append_of_slot hplain hslot] at hentry ⊢
  -- A directory is not deleted, and there are no links, so no way leads over what was deleted.
  have hregular : entry.isFile = true := by
    rcases entry with _ | ⟨content, runnable⟩ | target
    · exact absurd rfl hdirectory
    · rfl
    · exact absurd hentry (h.no_link other _ target (prefix_placeOf bases other file))
  have hkept : (tree.erase (placeOf bases other file)).entryAt? (placeOf bases source file) =
      some (.file content runnable) := by
    rw [entryAt?_erase _ _ _ (placeOf_ne_nil bases other file), if_neg (h.placeOf_ne hne file file),
      hfile]
  have hafter := hreaches.of_keepsWays (keepsWays_erase hentry hregular)
  rw [pathIn_eq_below, hreaches.entryOf_eq hfile (by simp), hafter.entryOf_eq hkept (by simp)]

end Apart

/-! ## A checkout to carry out steps on -/

/-- A checkout with its three trees side by side. -/
def sideBySide : Checkout where
  generals := ⟨"/p/Generals"⟩
  zeroHour := ⟨"/p/ZeroHour"⟩
  core := ⟨"/p/Core"⟩
  listName := "list"

/-- The locations of the trees of `sideBySide`. -/
def sideBySideBases : SourceTree → Location
  | .generals => ["p", "Generals"]
  | .zeroHour => ["p", "ZeroHour"]
  | .core => ["p", "Core"]

/-- The trees of `sideBySide`, with a group `G` that has a build list in each of them. -/
def groupEntries : List (Location × Entry) :=
  [(["p"], .directory), (["p", "Generals"], .directory), (["p", "ZeroHour"], .directory),
    (["p", "Core"], .directory), (["p", "Generals", "G"], .directory),
    (["p", "ZeroHour", "G"], .directory), (["p", "Core", "G"], .directory),
    (["p", "Generals", "G", "list"], .file (.text "a") false),
    (["p", "ZeroHour", "G", "list"], .file (.text "a") false),
    (["p", "Core", "G", "list"], .file (.text "#a") false)]

/-- The locations of the build lists of the group. -/
def groupLists : SourceTree → Location
  | .generals => ["p", "Generals", "G", "list"]
  | .zeroHour => ["p", "ZeroHour", "G", "list"]
  | .core => ["p", "Core", "G", "list"]

/-- The entries of the group, and more. -/
def withGroup (more : List (Location × Entry)) : FileTree :=
  { entries := more ++ groupEntries }

end Unify

end EngineUpkeep
