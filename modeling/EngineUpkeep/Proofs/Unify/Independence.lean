import EngineUpkeep.Proofs.Unify.BuildList
import EngineUpkeep.Proofs.Unify.Standing

/-!
# Operations that do not get in each other's way

The effects of two operations can come in either order if neither takes a file from or to a place
that a place of the other one is, or is inside of, and if none of these places is a build list or
holds one (`Operation.effect_comm`). The operations may edit the same lists: all edits of the list
of one tree are of the same kind, so they commute line by line.

What does not move a file changes each location by itself, so two such steps are compared one
location at a time (`UnifyStep.change_comm`). A move is compared with what leaves both of its places.
-/

namespace EngineUpkeep

open FileTree

variable {bases : SourceTree → Location} {listAt? : SourceTree → Text → Option Location}
  {listName : Text} {step step' : UnifyStep}

/-- The kind of edit that the lists of a tree get. -/
def SourceTree.editKind (tree : SourceTree) : LineEdit :=
  if tree = .core then .uncomment else .comment

namespace UnifyStep

/-- What a step that moves nothing makes of what stands at a location. -/
def change (bases : SourceTree → Location) (listAt? : SourceTree → Text → Option Location) :
    UnifyStep → Location → Option Entry → Option Entry
  | .toggle source group entry edit, location, found =>
    if listAt? source group = some location then found.map (Entry.toggled entry edit) else found
  | .delete source file, location, found =>
    if location = Unify.placeOf bases source file then none else found
  | .prepare target file, location, found =>
    if location <+: (Unify.placeOf bases target file).dropLast then some .directory else found
  | .move _ _ _ _, _, found => found

theorem effect_eq_change (h : step.isMove = false) (entries : Location → Option Entry)
    (location : Location) :
    step.effect bases listAt? entries location =
      step.change bases listAt? location (entries location) := by
  cases step with
  | move source file target targetFile => cases h
  | _ => rfl

theorem change_of_leaves {location : Location} (h : step.Leaves bases listAt? location)
    (found : Option Entry) : step.change bases listAt? location found = found := by
  cases step with
  | toggle source group entry edit => exact if_neg h
  | delete source file => exact if_neg h
  | prepare target file => exact if_neg h
  | move source file target targetFile => rfl

/-- What a step does with files it does with those at some places, in a variant or, if it makes
something there, in the core tree. The entries that it looks for in lists can be told from
markers. -/
def Within (bases : SourceTree → Location) (places : List Location) : UnifyStep → Prop
  | .toggle source _ entry edit => BuildList.IsAnchored entry ∧ edit = source.editKind
  | .delete source file => source ≠ .core ∧ Unify.placeOf bases source file ∈ places
  | .prepare target file => target = .core ∧ Unify.placeOf bases target file ∈ places
  | .move source file target targetFile =>
    Unify.placeOf bases source file ∈ places ∧ Unify.placeOf bases target targetFile ∈ places

end UnifyStep

/-- Neither location is the other one or inside it. -/
def Location.Apart (first second : Location) : Prop :=
  ¬ first <+: second ∧ ¬ second <+: first

instance Location.instDecidableApart (first second : Location) :
    Decidable (first.Apart second) :=
  inferInstanceAs (Decidable (_ ∧ _))

theorem Location.Apart.not_prefix {first second location : Location} (h : first.Apart second)
    (hfirst : first <+: location) : ¬ second <+: location := by
  intro hsecond
  obtain hwithin | hwithin := List.prefix_or_prefix_of_prefix hfirst hsecond
  · exact h.1 hwithin
  · exact h.2 hwithin

/-- Two moves between four places that are apart come to the same in either order. -/
theorem FileTree.moved_moved {α : Type} {source target source' target' : Location}
    (hsources : source.Apart source') (htargets : target.Apart target')
    (hsource : source.Apart target') (htarget : target.Apart source')
    (nothing : α) (found : Location → α) (location : Location) :
    moved nothing (moved nothing found source target) source' target' location =
      moved nothing (moved nothing found source' target') source target location := by
  by_cases hlocation : target <+: location
  · have hnotTarget := htargets.not_prefix hlocation
    have hnotSource := htarget.not_prefix hlocation
    have hfrom : source <+: source ++ location.drop target.length := List.prefix_append _ _
    simp only [moved, if_pos hlocation, if_neg hnotTarget, if_neg hnotSource,
      if_neg (hsource.not_prefix hfrom), if_neg (hsources.not_prefix hfrom)]
  · by_cases hlocation' : target' <+: location
    · have hnotSource : ¬ source <+: location := fun hwithin => hsource.not_prefix hwithin hlocation'
      have hfrom : source' <+: source' ++ location.drop target'.length := List.prefix_append _ _
      simp only [moved, if_pos hlocation', if_neg hlocation, if_neg hnotSource,
        if_neg fun hwithin => htarget.not_prefix hwithin hfrom,
        if_neg fun hwithin => hsources.not_prefix hwithin hfrom]
    · simp only [moved, if_neg hlocation, if_neg hlocation']
      split <;> split <;> rfl

namespace UnifyStep

/-! ## Two steps -/

variable {places places' : List Location}

/-- What two steps rely on to come in either order: trees that are apart, with lists of their own,
and places that are apart from each other and have no lists inside. -/
structure Separated (bases : SourceTree → Location)
    (listAt? : SourceTree → Text → Option Location) (places places' : List Location) : Prop where
  /-- No source tree is inside another. -/
  trees : ∀ source other, bases source <+: bases other → source = other
  /-- A list is the list of one tree. -/
  lists : ∀ source group source' group' location, listAt? source group = some location →
    listAt? source' group' = some location → source = source'
  /-- The places of the one are apart from those of the other. -/
  apart : ∀ place ∈ places, ∀ place' ∈ places', place.Apart place'
  /-- No list is at a place or inside it. -/
  no_list : ∀ place ∈ places ++ places', ∀ source group location,
    listAt? source group = some location → ¬ place <+: location

theorem Separated.symm (h : Separated bases listAt? places places') :
    Separated bases listAt? places' places :=
  ⟨h.trees, h.lists, fun place hplace place' hplace' =>
    ⟨(h.apart place' hplace' place hplace).2, (h.apart place' hplace' place hplace).1⟩,
    fun place hplace => h.no_list place (List.mem_append.2 (List.mem_append.1 hplace).symm)⟩

section Separated

variable (h : Separated bases listAt? places places')
include h

/-- The place of a file of a variant is not above one in the core tree. -/
theorem Separated.not_above {source target : SourceTree} (hsource : source ≠ .core)
    (htarget : target = .core) (file targetFile : Text) :
    ¬ Unify.placeOf bases source file <+: (Unify.placeOf bases target targetFile).dropLast := by
  intro hwithin
  apply hsource
  rw [← htarget]
  exact Unify.eq_of_prefix_of_apart h.trees ((Unify.prefix_placeOf bases source file).trans
    (hwithin.trans (List.dropLast_prefix _))) (Unify.prefix_placeOf bases target targetFile)

/-- A deletion and the making of a directory change different locations. -/
theorem Separated.change_comm_delete_prepare {source target : SourceTree} {file targetFile : Text}
    (hsource : source ≠ .core) (htarget : target = .core) (location : Location)
    (found : Option Entry) :
    change bases listAt? (.prepare target targetFile) location
        (change bases listAt? (.delete source file) location found) =
      change bases listAt? (.delete source file) location
        (change bases listAt? (.prepare target targetFile) location found) := by
  simp only [change]
  by_cases hlocation : location = Unify.placeOf bases source file
  · have hnot : ¬ location <+: (Unify.placeOf bases target targetFile).dropLast := by
      rw [hlocation]
      exact h.not_above hsource htarget file targetFile
    rw [if_neg hnot, if_neg hnot]
  · rw [if_neg hlocation, if_neg hlocation]

variable (hstep : step.Within bases places) (hstep' : step'.Within bases places')
include hstep hstep'

/-- At each location, two steps that move nothing come to the same in either order. -/
theorem Separated.change_comm (location : Location) (found : Option Entry) :
    step'.change bases listAt? location (step.change bases listAt? location found) =
      step.change bases listAt? location (step'.change bases listAt? location found) := by
  cases step with
  | move source file target targetFile => rfl
  | toggle source group entry edit =>
    obtain ⟨hanchored, rfl⟩ := hstep
    cases step' with
    | move source' file' target' targetFile' => rfl
    | toggle source' group' entry' edit' =>
      obtain ⟨hanchored', rfl⟩ := hstep'
      simp only [change]
      by_cases hlist : listAt? source group = some location
      · by_cases hlist' : listAt? source' group' = some location
        · -- The list of one tree gets edits of one kind.
          obtain rfl := h.lists source group source' group' location hlist hlist'
          simp only [if_pos hlist, if_pos hlist', Option.map_map]
          congr 1
          funext item
          exact Entry.toggled_comm hanchored hanchored' _ item
        · rw [if_neg hlist', if_neg hlist']
      · rw [if_neg hlist, if_neg hlist]
    -- An edit changes neither a directory nor a place where nothing is.
    | delete source' file' => simp only [change]; split <;> split <;> rfl
    | prepare target' file' => simp only [change]; split <;> split <;> rfl
  | delete source file =>
    cases step' with
    | move source' file' target' targetFile' => rfl
    | toggle source' group' entry' edit' => simp only [change]; split <;> split <;> rfl
    | delete source' file' => simp only [change]; split <;> split <;> rfl
    | prepare target' file' => exact h.change_comm_delete_prepare hstep.1 hstep'.1 location found
  | prepare target file =>
    cases step' with
    | move source' file' target' targetFile' => rfl
    | toggle source' group' entry' edit' => simp only [change]; split <;> split <;> rfl
    | delete source' file' =>
      exact (h.change_comm_delete_prepare hstep'.1 hstep.1 location found).symm
    | prepare target' file' => simp only [change]; split <;> split <;> rfl

/-- What moves nothing leaves the places between which something is moved, and all below them. -/
theorem Separated.leaves_of_move {source target : SourceTree} {file targetFile : Text}
    (hmove : step' = .move source file target targetFile) (hne : step.isMove = false)
    {location : Location} (hlocation : Unify.placeOf bases source file <+: location ∨
      Unify.placeOf bases target targetFile <+: location) :
    step.Leaves bases listAt? location := by
  subst hmove
  obtain ⟨place', hplace', hwithin⟩ : ∃ place' ∈ places', place' <+: location :=
    hlocation.elim (fun hwithin => ⟨_, hstep'.1, hwithin⟩) fun hwithin => ⟨_, hstep'.2, hwithin⟩
  cases step with
  | toggle source' group entry edit =>
    exact fun hlist => h.no_list place' (List.mem_append_right places hplace') _ _ _ hlist hwithin
  | delete source' file' =>
    rintro rfl
    exact (h.apart _ hstep.2 place' hplace').2 hwithin
  | prepare target' file' =>
    intro habove
    exact (h.apart _ hstep.2 place' hplace').2
      (hwithin.trans (habove.trans (List.dropLast_prefix _)))
  | move source' file' target' targetFile' => cases hne

/-- A move and a step that moves nothing come to the same in either order. -/
theorem Separated.effect_comm_move {source target : SourceTree} {file targetFile : Text}
    (hmove : step' = .move source file target targetFile) (hne : step.isMove = false)
    (entries : Location → Option Entry) :
    step'.effect bases listAt? (step.effect bases listAt? entries) =
      step.effect bases listAt? (step'.effect bases listAt? entries) := by
  have hleaves : ∀ location found, Unify.placeOf bases source file <+: location ∨
      Unify.placeOf bases target targetFile <+: location →
        step.change bases listAt? location found = found := fun location found hlocation =>
    change_of_leaves (h.leaves_of_move hstep hstep' hmove hne hlocation) found
  subst hmove
  have heffect : ∀ before, effect bases listAt? (.move source file target targetFile) before =
      moved none before (Unify.placeOf bases source file)
        (Unify.placeOf bases target targetFile) :=
    fun _ => rfl
  funext location
  rw [heffect, heffect, effect_eq_change hne, moved, moved]
  by_cases htarget : Unify.placeOf bases target targetFile <+: location
  · rw [if_pos htarget, if_pos htarget, hleaves location _ (.inr htarget), effect_eq_change hne,
      hleaves _ _ (.inl (List.prefix_append _ _))]
  · rw [if_neg htarget, if_neg htarget]
    by_cases hsource : Unify.placeOf bases source file <+: location
    · rw [if_pos hsource, if_pos hsource, hleaves location _ (.inl hsource)]
    · rw [if_neg hsource, if_neg hsource, effect_eq_change hne]

/-- Two steps that are separated come to the same in either order. -/
theorem Separated.effect_comm (entries : Location → Option Entry) :
    step'.effect bases listAt? (step.effect bases listAt? entries) =
      step.effect bases listAt? (step'.effect bases listAt? entries) := by
  cases hmove : step.isMove with
  | false =>
    cases hmove' : step'.isMove with
    | false =>
      funext location
      rw [effect_eq_change hmove', effect_eq_change hmove, effect_eq_change hmove,
        effect_eq_change hmove']
      exact h.change_comm hstep hstep' location (entries location)
    | true =>
      cases step' with
      | move source file target targetFile => exact h.effect_comm_move hstep hstep' rfl hmove entries
      | _ => cases hmove'
  | true =>
    cases step with
    | move source file target targetFile =>
      cases hmove' : step'.isMove with
      | false => exact (h.symm.effect_comm_move hstep' hstep rfl hmove' entries).symm
      | true =>
        cases step' with
        | move source' file' target' targetFile' =>
          funext location
          exact moved_moved (h.apart _ hstep.1 _ hstep'.1) (h.apart _ hstep.2 _ hstep'.2)
            (h.apart _ hstep.1 _ hstep'.2) (h.apart _ hstep.2 _ hstep'.1) none entries location
        | _ => cases hmove'
    | _ => cases hmove

end Separated

end UnifyStep

/-! ## Two operations -/

namespace Unify

/-- A step comes to the same before and after other steps, if it does so for each of them. -/
theorem effects_effect {steps : List UnifyStep}
    (h : ∀ step' ∈ steps, ∀ entries, step'.effect bases listAt? (step.effect bases listAt? entries) =
      step.effect bases listAt? (step'.effect bases listAt? entries))
    (entries : Location → Option Entry) :
    effects bases listAt? steps (step.effect bases listAt? entries) =
      step.effect bases listAt? (effects bases listAt? steps entries) := by
  induction steps generalizing entries with
  | nil => rfl
  | cons step' steps ih =>
    have hrest := ih (fun other hother => h other (List.mem_cons_of_mem step' hother))
      (step'.effect bases listAt? entries)
    rw [← h step' List.mem_cons_self] at hrest
    exact hrest

/-- Steps in order come to the same before and after others, if any two of them do. -/
theorem effects_comm {steps steps' : List UnifyStep}
    (h : ∀ step ∈ steps, ∀ step' ∈ steps', ∀ entries,
      step'.effect bases listAt? (step.effect bases listAt? entries) =
        step.effect bases listAt? (step'.effect bases listAt? entries))
    (entries : Location → Option Entry) :
    effects bases listAt? steps' (effects bases listAt? steps entries) =
      effects bases listAt? steps (effects bases listAt? steps' entries) := by
  induction steps generalizing entries with
  | nil => rfl
  | cons step steps ih =>
    have hrest := ih (fun other hother => h other (List.mem_cons_of_mem step hother))
      (step.effect bases listAt? entries)
    rw [effects_effect (h step List.mem_cons_self)] at hrest
    exact hrest

end Unify

namespace Operation

/-- The files that an operation deletes, takes away or puts somewhere, each with its tree. -/
def touched (operation : Operation) : List (SourceTree × Text) :=
  (operation.source, operation.file) :: (.core, operation.destination) ::
    match operation.kind, operation.source.counterpart with
    | .unify, .ok other => [(other, operation.file)]
    | _, _ => []

/-- The places of these files. -/
def places (bases : SourceTree → Location) (operation : Operation) : List Location :=
  operation.touched.map fun file => Unify.placeOf bases file.1 file.2

/-- The steps of an operation. -/
def steps (operation : Operation) : Except Failure (List UnifyStep) :=
  Unify.stepsOf operation.kind operation.source operation.file .core operation.destination

/-- What stands at a location after an operation that can be carried out. -/
def effect (bases : SourceTree → Location) (listAt? : SourceTree → Text → Option Location)
    (operation : Operation) (entries : Location → Option Entry) : Location → Option Entry :=
  match operation.steps with
  | .ok steps => Unify.effects bases listAt? steps entries
  | .error _ => entries

theorem effect_eq_effects {operation : Operation} {steps : List UnifyStep}
    (h : operation.steps = .ok steps) (entries : Location → Option Entry) :
    operation.effect bases listAt? entries = Unify.effects bases listAt? steps entries := by
  rw [effect, h]

theorem effect_of_refused {operation : Operation} {failure : Failure}
    (h : operation.steps = .error failure) (entries : Location → Option Entry) :
    operation.effect bases listAt? entries = entries := by
  rw [effect, h]

/-- Whether a directory at a location is sealed after an operation that can be carried out. Only the
move takes a directory elsewhere. -/
def sealsAfter (bases : SourceTree → Location) (operation : Operation) (seals : Location → Bool) :
    Location → Bool :=
  moved false seals (Unify.placeOf bases operation.source operation.file)
    (Unify.placeOf bases .core operation.destination)

/-- An operation on a variant's file. Its paths lead straight down and neither to a build list nor
to the group of one, and the entries of its files in the lists can be told from markers. -/
structure IsRegular (listName : Text) (operation : Operation) : Prop where
  /-- The source is a variant. -/
  variant : operation.source ∈ SourceTree.variants
  /-- The paths lead straight down. -/
  plain : ∀ file ∈ operation.touched, ∀ name ∈ Text.pieces file.2 '/', Path.IsPlain name
  /-- An entry begins with a character that is neither blank nor a marker. -/
  anchored : ∀ file ∈ operation.touched, ∀ listed, ListedPath.ofText file.2 = .ok listed →
    BuildList.IsAnchored listed.entry
  /-- No path is that of a build list or of the directory that holds one. -/
  no_list : ∀ file ∈ operation.touched, ∀ group, ¬ Text.pieces file.2 '/' <+: [group, listName]

/-- No file that one of the operations touches is at or inside what the other one touches. -/
def Independent (first second : Operation) : Prop :=
  ∀ file ∈ first.touched, ∀ file' ∈ second.touched, file.1 = file'.1 →
    Location.Apart (Text.pieces file.2 '/') (Text.pieces file'.2 '/')

instance instDecidableIndependent (first second : Operation) :
    Decidable (Independent first second) :=
  inferInstanceAs (Decidable (∀ file ∈ first.touched, ∀ file' ∈ second.touched, _ → _))

instance : Std.Symm Independent where
  symm first second h file hfile file' hfile' htree := by
    obtain ⟨hfirst, hsecond⟩ := h file' hfile' file hfile htree.symm
    exact ⟨hsecond, hfirst⟩

/-- The place of the list of a group, in trees whose lists have a plain name. -/
def listPlace (bases : SourceTree → Location) (listName : Text) (source : SourceTree)
    (group : Text) : Option Location :=
  some (bases source ++ [group, listName])

section Effect

variable (htrees : ∀ source other, bases source <+: bases other → source = other)
include htrees

/-- Of two locations inside trees, one is above the other only if the trees are one. -/
theorem prefix_of_prefix_append {source other : SourceTree} {names names' : List Text}
    (h : bases source ++ names <+: bases other ++ names') : source = other ∧ names <+: names' := by
  obtain rfl : source = other := Unify.eq_of_prefix_of_apart htrees
    ((List.prefix_append _ _).trans h) (List.prefix_append _ names')
  exact ⟨rfl, (List.prefix_append_right_inj _).1 h⟩

theorem separated_of_independent {first second : Operation} (hfirst : first.IsRegular listName)
    (hsecond : second.IsRegular listName) (h : Independent first second) :
    UnifyStep.Separated bases (listPlace bases listName) (first.places bases)
      (second.places bases) := by
  have hno : ∀ {operation : Operation}, operation.IsRegular listName →
      ∀ place ∈ operation.places bases, ∀ source group location,
        listPlace bases listName source group = some location → ¬ place <+: location := by
    -- The tree is known from a location in it, so only the names below its base are compared.
    intro operation hregular place hplace source group location hlist hwithin
    obtain ⟨file, hfile, rfl⟩ := List.mem_map.1 hplace
    cases hlist
    exact hregular.no_list file hfile group (prefix_of_prefix_append htrees hwithin).2
  refine ⟨htrees, ?_, ?_, ?_⟩
  · intro source group source' group' location hlist hlist'
    have hsame : bases source ++ [group, listName] = bases source' ++ [group', listName] :=
      Option.some.inj (hlist.trans hlist'.symm)
    have hwithin : bases source ++ [group, listName] <+: bases source' ++ [group', listName] :=
      ⟨[], (List.append_nil _).trans hsame⟩
    exact (prefix_of_prefix_append htrees hwithin).1
  · intro place hplace place' hplace'
    obtain ⟨file, hfile, rfl⟩ := List.mem_map.1 hplace
    obtain ⟨file', hfile', rfl⟩ := List.mem_map.1 hplace'
    constructor
    · intro hwithin
      obtain ⟨htree, hnames⟩ := prefix_of_prefix_append htrees hwithin
      exact (h file hfile file' hfile' htree).1 hnames
    · intro hwithin
      obtain ⟨htree, hnames⟩ := prefix_of_prefix_append htrees hwithin
      exact (h file hfile file' hfile' htree.symm).2 hnames
  · intro place hplace
    obtain hplace | hplace := List.mem_append.1 hplace
    · exact hno hfirst place hplace
    · exact hno hsecond place hplace

end Effect

/-- The other trees that lose the file are touched. -/
theorem mem_touched_of_others {operation : Operation} {others : List SourceTree}
    {other : SourceTree} (h : Unify.Others operation.kind operation.source others)
    (hother : other ∈ others) :
    other ∈ SourceTree.variants ∧ (other, operation.file) ∈ operation.touched := by
  rw [touched]
  cases hkind : operation.kind with
  | unify =>
    rw [hkind] at h
    obtain ⟨counterpart, hcounterpart, rfl⟩ := h
    obtain rfl := List.mem_singleton.1 hother
    exact ⟨(SourceTree.counterpart_cases hcounterpart).2.2, by simp [hcounterpart]⟩
  | move =>
    rw [hkind] at h
    obtain rfl : others = [] := h
    cases hother

/-- The steps of an operation do nothing with other files than those it touches. -/
theorem IsRegular.within {operation : Operation} (h : operation.IsRegular listName)
    {steps : List UnifyStep} (hsteps : operation.steps = .ok steps) (hstep : step ∈ steps) :
    step.Within bases (operation.places bases) := by
  obtain ⟨others, old, new, hothers, hold, hnew, rfl⟩ := Unify.stepsOf_eq_stepsWith hsteps
  have hsource : (operation.source, operation.file) ∈ operation.touched := List.mem_cons_self
  have htarget : (.core, operation.destination) ∈ operation.touched :=
    List.mem_cons_of_mem _ List.mem_cons_self
  have hplace : ∀ {file}, file ∈ operation.touched →
      Unify.placeOf bases file.1 file.2 ∈ operation.places bases := List.mem_map_of_mem
  obtain ⟨variant, hvariant, rfl⟩ | rfl | ⟨other, hother, rfl⟩ | rfl | rfl :=
    Unify.mem_stepsWith.1 hstep
  · have hne : variant ≠ .core := by
      apply SourceTree.ne_core_of_mem_variants
      obtain hvariant | hvariant := List.mem_append.1 hvariant
      · exact (mem_touched_of_others hothers hvariant).1
      · rw [List.mem_singleton.1 hvariant]
        exact h.variant
    exact ⟨h.anchored _ hsource old hold, by rw [SourceTree.editKind, if_neg hne]⟩
  · exact ⟨h.anchored _ htarget new hnew, rfl⟩
  · obtain ⟨hvariant, htouched⟩ := mem_touched_of_others hothers hother
    exact ⟨SourceTree.ne_core_of_mem_variants hvariant, hplace htouched⟩
  · exact ⟨rfl, hplace htarget⟩
  · exact ⟨hplace hsource, hplace htarget⟩

/-- The effects of independent operations come to the same in either order. -/
theorem effect_comm (htrees : ∀ source other, bases source <+: bases other → source = other)
    {first second : Operation} (hfirst : first.IsRegular listName)
    (hsecond : second.IsRegular listName) (h : Independent first second)
    (entries : Location → Option Entry) :
    second.effect bases (listPlace bases listName)
        (first.effect bases (listPlace bases listName) entries) =
      first.effect bases (listPlace bases listName)
        (second.effect bases (listPlace bases listName) entries) := by
  have hseparated := separated_of_independent htrees hfirst hsecond h
  rcases hsteps : first.steps with failure | steps
  · rw [effect_of_refused hsteps, effect_of_refused hsteps]
  · rcases hsteps' : second.steps with failure | steps'
    · rw [effect_of_refused hsteps', effect_of_refused hsteps']
    · rw [effect_eq_effects hsteps, effect_eq_effects hsteps, effect_eq_effects hsteps',
        effect_eq_effects hsteps']
      refine Unify.effects_comm (fun step hstep step' hstep' entries => ?_) entries
      exact hseparated.effect_comm (hfirst.within hsteps hstep) (hsecond.within hsteps' hstep')
        entries

/-- So do the seals. -/
theorem sealsAfter_comm (htrees : ∀ source other, bases source <+: bases other → source = other)
    {first second : Operation} (hfirst : first.IsRegular listName)
    (hsecond : second.IsRegular listName) (h : Independent first second)
    (seals : Location → Bool) :
    second.sealsAfter bases (first.sealsAfter bases seals) =
      first.sealsAfter bases (second.sealsAfter bases seals) := by
  have hplaces := (separated_of_independent htrees hfirst hsecond h).apart
  have hsource : ∀ operation : Operation,
      Unify.placeOf bases operation.source operation.file ∈ operation.places bases :=
    fun _ => List.mem_cons_self
  have htarget : ∀ operation : Operation,
      Unify.placeOf bases .core operation.destination ∈ operation.places bases :=
    fun _ => List.mem_cons_of_mem _ List.mem_cons_self
  funext location
  exact moved_moved (hplaces _ (hsource _) _ (hsource _)) (hplaces _ (htarget _) _ (htarget _))
    (hplaces _ (hsource _) _ (htarget _)) (hplaces _ (htarget _) _ (hsource _)) false seals location

end Operation

end EngineUpkeep
