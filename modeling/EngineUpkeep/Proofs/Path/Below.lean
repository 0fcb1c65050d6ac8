import EngineUpkeep.FileTree.Walk
import EngineUpkeep.Proofs.Text.Pieces
import Mathlib.Data.List.Basic

/-!
# Paths below a root

Names that stand for entries are written below a root by joining them to it. Whatever the root looks
like, such a path is the root followed by the names: so are its pieces (`body_below`), the segments
that a walk goes through (`segments_below`) and the directories around it (`parent?_below`).
-/

namespace EngineUpkeep

namespace Path

/-- A name that stands for an entry wherever it is written in a path. -/
structure IsPlain (name : Text) : Prop where
  /-- The name names something. -/
  not_idle : isIdle name = false
  /-- The name does not lead up. -/
  ne_up : name ≠ ['.', '.']
  /-- The name is one piece. -/
  slash_notMem : '/' ∉ name

instance instDecidableIsPlain (name : Text) : Decidable (IsPlain name) :=
  decidable_of_iff (isIdle name = false ∧ name ≠ ['.', '.'] ∧ '/' ∉ name)
    ⟨fun h => ⟨h.1, h.2.1, h.2.2⟩, fun h => ⟨h.1, h.2, h.3⟩⟩

theorem IsPlain.ne_nil {name : Text} (h : IsPlain name) : name ≠ [] := by
  rintro rfl
  cases h.not_idle

theorem IsPlain.ne_here {name : Text} (h : IsPlain name) : name ≠ ['.'] := by
  rintro rfl
  cases h.not_idle

theorem isPlain_of_isName {name : Text} (h : isName name = true) : IsPlain name := by
  simp only [isName, Bool.and_eq_true, decide_eq_true_eq] at h
  exact ⟨by simp [isIdle, h.1.1.1.1.1, h.1.1.1.1.2], h.1.1.1.2, h.1.1.2⟩

/-- The path of names below a root. -/
def below (root : Path) (names : List Text) : Path :=
  root.join ⟨Text.join ['/'] names⟩

/-- A text without the slash at its front that makes a path absolute. -/
def withoutRoot : Text → Text
  | '/' :: rest => rest
  | text => text

/-- The pieces of a root in front of the names below it. -/
def openBody (root : Path) : List Text :=
  if root.text.getLast? = some '/' then root.body.dropLast else root.body

theorem body_eq (path : Path) : path.body = Text.pieces (withoutRoot path.text) '/' := by
  rw [body]
  rcases path.text with _ | ⟨c, rest⟩
  · rfl
  · by_cases hc : c = '/'
    · subst hc
      rfl
    · simp [withoutRoot, hc]

/-- No slash is in a piece of a path. -/
theorem slash_notMem_of_mem_body {path : Path} {piece : Text} (h : piece ∈ path.body) :
    '/' ∉ piece := by
  rw [body_eq] at h
  exact Text.notMem_of_mem_pieces h

theorem withoutRoot_append {text : Text} (hne : text ≠ []) (rest : Text) :
    withoutRoot (text ++ rest) = withoutRoot text ++ rest := by
  cases text with
  | nil => exact absurd rfl hne
  | cons c text =>
    by_cases hc : c = '/'
    · subst hc
      rfl
    · simp [withoutRoot, hc]

/-- A path is written as its pieces, after a slash if it is absolute. -/
theorem text_eq (path : Path) :
    path.text = (if path.isAbsolute then ['/'] else []) ++ Text.join ['/'] path.body := by
  rw [body_eq, Text.join_pieces]
  rcases htext : path.text with _ | ⟨c, rest⟩
  · simp [isAbsolute, htext, withoutRoot]
  · by_cases hc : c = '/'
    · subst hc
      simp [isAbsolute, htext, withoutRoot]
    · simp [isAbsolute, htext, withoutRoot, hc]

section Below

variable {root : Path} {names : List Text} {last : Text}

theorem join_ne_nil (hne : names ≠ []) (hnames : ∀ name ∈ names, IsPlain name) :
    Text.join ['/'] names ≠ [] := by
  rcases names with _ | ⟨name, _ | ⟨next, others⟩⟩
  · exact absurd rfl hne
  · exact (hnames name (by simp)).ne_nil
  · simp [Text.join]

/-- Joined names are no absolute path. -/
theorem head?_join (hne : names ≠ []) (hnames : ∀ name ∈ names, IsPlain name) :
    (Text.join ['/'] names).head? ≠ some '/' := by
  rcases names with _ | ⟨name, names⟩
  · exact absurd rfl hne
  · have hname := hnames name (by simp)
    obtain ⟨c, rest, rfl⟩ := List.exists_cons_of_ne_nil hname.ne_nil
    have hc : c ≠ '/' := fun hc => hname.slash_notMem (by simp [hc])
    cases names <;> simpa [Text.join] using hc

theorem below_eq (hne : names ≠ []) (hnames : ∀ name ∈ names, IsPlain name) :
    root.below names =
      ⟨root.text ++ (if root.text = [] ∨ root.text.getLast? = some '/' then [] else ['/']) ++
        Text.join ['/'] names⟩ := by
  have habsolute : (Path.mk (Text.join ['/'] names)).isAbsolute = false := by
    simpa [isAbsolute] using head?_join hne hnames
  rw [below, join, habsolute]
  by_cases hempty : root.text = [] ∨ root.text.getLast? = some '/'
  · rw [if_pos hempty]
    simp [hempty]
  · rw [if_neg hempty]
    simp [hempty]

theorem isAbsolute_below (hroot : root.text ≠ []) (hne : names ≠ [])
    (hnames : ∀ name ∈ names, IsPlain name) :
    (root.below names).isAbsolute = root.isAbsolute := by
  rw [below_eq hne hnames]
  obtain ⟨c, rest, htext⟩ := List.exists_cons_of_ne_nil hroot
  simp [isAbsolute, htext]

/-- The pieces of a path below a root are those of the root and then the names. -/
theorem body_below (hroot : root.text ≠ []) (hne : names ≠ [])
    (hnames : ∀ name ∈ names, IsPlain name) :
    (root.below names).body = root.openBody ++ names := by
  have hpieces : Text.pieces (Text.join ['/'] names) '/' = names :=
    Text.pieces_join hne fun name hname => (hnames name hname).slash_notMem
  rw [below_eq hne hnames, openBody, body_eq, body_eq]
  simp only [hroot, false_or]
  -- A slash at the end of the root is the one that separates it from the names.
  by_cases hlast : root.text.getLast? = some '/'
  · obtain ⟨before, hbefore⟩ : ∃ before, root.text = before ++ ['/'] :=
      List.getLast?_eq_some_iff.1 hlast
    simp only [hlast, if_true, List.append_nil]
    rcases before with _ | ⟨c, before⟩
    · simp only [List.nil_append] at hbefore
      simp [hbefore, withoutRoot, hpieces, Text.pieces]
    · rw [hbefore, List.append_assoc, List.singleton_append, withoutRoot_append (by simp),
        withoutRoot_append (by simp), Text.pieces_append_cons, Text.pieces_append_cons, hpieces]
      simp [Text.pieces]
  · simp only [hlast, if_false]
    rw [List.append_assoc, List.singleton_append, withoutRoot_append hroot,
      Text.pieces_append_cons, hpieces]

/-- A walk below a root goes through the segments of the root and then through the names. -/
theorem segments_below (hroot : root.text ≠ []) (hne : names ≠ [])
    (hnames : ∀ name ∈ names, IsPlain name) :
    (root.below names).segments = root.segments ++ names := by
  have hopen : root.openBody.filter (· ≠ []) = root.segments := by
    rw [openBody, segments, body_eq]
    split
    · -- The piece after a slash at the end is empty, so it is no segment.
      next hlast =>
      obtain ⟨before, hbefore⟩ := List.getLast?_eq_some_iff.1 hlast
      rcases before with _ | ⟨c, before⟩
      · simp [hbefore, withoutRoot, Text.pieces]
      · rw [hbefore, withoutRoot_append (by simp), Text.pieces_append_cons]
        simp [Text.pieces]
    · rfl
  rw [segments, body_below hroot hne hnames, List.filter_append, hopen,
    List.filter_eq_self.2 fun name hname => by simpa using (hnames name hname).ne_nil]

theorem text_below_ne_nil (hne : names ≠ []) (hnames : ∀ name ∈ names, IsPlain name) :
    (root.below names).text ≠ [] := by
  rw [below_eq hne hnames]
  simp [join_ne_nil hne hnames]

theorem start_below (hroot : root.text ≠ []) (hne : names ≠ [])
    (hnames : ∀ name ∈ names, IsPlain name) (current : List Text) :
    (root.below names).start current = root.start current := by
  rw [start, start, isAbsolute_below hroot hne hnames]

/-- Joined names do not end in a slash: after it there would be an empty name. -/
theorem getLast?_join (hne : names ≠ []) (hnames : ∀ name ∈ names, IsPlain name) :
    (Text.join ['/'] names).getLast? ≠ some '/' := by
  intro hlast
  obtain ⟨before, hbefore⟩ := List.getLast?_eq_some_iff.1 hlast
  have hpieces := Text.pieces_join hne fun name hname => (hnames name hname).slash_notMem
  rw [hbefore, Text.pieces_append_cons] at hpieces
  exact (hnames [] (by rw [← hpieces]; simp [Text.pieces])).ne_nil rfl

theorem getLast?_below (hne : names ≠ []) (hnames : ∀ name ∈ names, IsPlain name) :
    (root.below names).text.getLast? ≠ some '/' := by
  rw [below_eq hne hnames, List.getLast?_append]
  rcases hjoin : (Text.join ['/'] names).getLast? with _ | c
  · exact absurd (List.getLast?_eq_none_iff.1 hjoin) (join_ne_nil hne hnames)
  · have hlast := getLast?_join hne hnames
    rw [hjoin] at hlast
    simpa using hlast

/-- A path below a root has no slash at its end. -/
theorem hasSlashEnd_below (hne : names ≠ []) (hnames : ∀ name ∈ names, IsPlain name) :
    (root.below names).hasSlashEnd = false := by
  simp [hasSlashEnd, getLast?_below hne hnames]

/-- What is below a path that is itself below a root is below the root. -/
theorem below_below {more : List Text} (hmore : more ≠ []) (hmorePlain : ∀ name ∈ more, IsPlain name)
    (hne : names ≠ []) (hnames : ∀ name ∈ names, IsPlain name) :
    (root.below more).below names = root.below (more ++ names) := by
  have hall : ∀ name ∈ more ++ names, IsPlain name := fun name hname =>
    (List.mem_append.1 hname).elim (hmorePlain name) (hnames name)
  rw [below_eq hne hnames, if_neg, below_eq hmore hmorePlain, below_eq (by simp [hne]) hall,
    Text.join_append ['/'] hmore hne]
  · simp only [List.append_assoc]
  · exact fun h => h.elim (text_below_ne_nil hmore hmorePlain) (getLast?_below hmore hmorePlain)

/-- The path of names below a path, which is the path itself where there are none. -/
def within (start : Path) (names : List Text) : Path :=
  if names = [] then start else start.below names

theorem below_within {start : Path} {more : List Text} (hmore : ∀ name ∈ more, IsPlain name)
    (hne : names ≠ []) (hnames : ∀ name ∈ names, IsPlain name) :
    (start.within more).below names = start.below (more ++ names) := by
  rw [within]
  split
  · next hnil => rw [hnil, List.nil_append]
  · next hmoreNe => exact below_below hmoreNe hmore hne hnames

/-- Pieces that end in a name have nothing idle at their end. -/
theorem dropIdleEnd_concat {pieces : List Text} (h : IsPlain last) :
    dropIdleEnd (pieces ++ [last]) = pieces ++ [last] := by
  simp [dropIdleEnd, h.not_idle]

/-- The path around a name is written as the pieces before the name. -/
theorem parent?_eq {path : Path} {pieces : List Text} {next : Text}
    (hbody : path.body = pieces ++ [next] ++ [last]) (hnext : IsPlain next) (hlast : IsPlain last) :
    path.parent? = some ⟨(if path.isAbsolute then ['/'] else []) ++
      Text.join ['/'] (pieces ++ [next])⟩ := by
  cases hstart : path.startsHere with
  | true =>
    -- The leading dot is one of the pieces before both names.
    simp only [startsHere, hbody, Bool.and_eq_true, Bool.not_eq_true', decide_eq_true_eq] at hstart
    obtain ⟨habsolute, hhead⟩ := hstart
    obtain ⟨others, rfl⟩ : ∃ others, pieces = ['.'] :: others := by
      rcases pieces with _ | ⟨first, others⟩
      · exact absurd (Option.some.inj hhead) hnext.ne_here
      · exact ⟨others, congrArg (· :: others) (Option.some.inj hhead)⟩
    have hhere : path.startsHere = true := by simp [startsHere, habsolute, hbody]
    have htail : path.tail = others ++ [next] ++ [last] := by simp [tail, hhere, hbody]
    rw [parent?, htail, dropIdleEnd_concat hlast, List.reverse_append]
    simp only [List.reverse_singleton, List.singleton_append, List.reverse_reverse]
    rw [dropIdleEnd_concat hnext, ofTail, hhere, habsolute]
    rfl
  | false =>
    have htail : path.tail = pieces ++ [next] ++ [last] := by simp [tail, hstart, hbody]
    rw [parent?, htail, dropIdleEnd_concat hlast, List.reverse_append]
    simp only [List.reverse_singleton, List.singleton_append, List.reverse_reverse]
    rw [dropIdleEnd_concat hnext, ofTail, hstart, lead, hstart]
    rfl

/-- The directory around names below a root has the names before the last of them. -/
theorem parent?_below (hroot : root.text ≠ []) (hne : names ≠ [])
    (hnames : ∀ name ∈ names ++ [last], IsPlain name) :
    (root.below (names ++ [last])).parent? = some (root.below names) := by
  have hinit : ∀ name ∈ names, IsPlain name := fun name hname => hnames name (by simp [hname])
  obtain ⟨before, next, rfl⟩ := (List.eq_nil_or_concat' names).resolve_left hne
  have hbody := body_below hroot (by simp) hnames
  rw [← List.append_assoc, ← List.append_assoc] at hbody
  rw [parent?_eq hbody (hinit next (by simp)) (hnames last (by simp)),
    isAbsolute_below hroot (by simp) hnames]
  congr 1
  rw [← isAbsolute_below hroot hne hinit, List.append_assoc, ← body_below hroot hne hinit,
    ← text_eq]

/-- Each name below a root is a component. -/
theorem length_le_components (hroot : root.text ≠ []) (hne : names ≠ [])
    (hnames : ∀ name ∈ names, IsPlain name) :
    names.length ≤ (root.below names).components.length := by
  have hcomponents : (names.filterMap componentOf?).length = names.length := by
    clear hne
    induction names with
    | nil => rfl
    | cons name names ih =>
      have hplain := hnames name (by simp)
      have hname : componentOf? name = some (.name name) := by
        simp [componentOf?, hplain.not_idle, hplain.ne_up]
      rw [List.filterMap_cons_some hname, List.length_cons, List.length_cons,
        ih fun other hother => hnames other (by simp [hother])]
  rw [components, body_below hroot hne hnames, List.filterMap_append]
  simp only [List.length_append, hcomponents]
  omega

/-- A path is the first of the paths around it. -/
theorem exists_ancestorsUpTo_eq (fuel : Nat) (path : Path) :
    ∃ above, ancestorsUpTo fuel path = path :: above := by
  cases fuel with
  | zero => exact ⟨[], rfl⟩
  | succ fuel =>
    rw [ancestorsUpTo]
    split
    · exact ⟨[], rfl⟩
    · exact ⟨_, rfl⟩

/-- A path around a usable one is usable. -/
theorem isUsable_below (hne : names ≠ []) (hnames : ∀ name ∈ names ++ [last], IsPlain name)
    (husable : (root.below (names ++ [last])).isUsable = true) :
    (root.below names).isUsable = true := by
  have hplain : ∀ name ∈ names, IsPlain name := fun name hname => hnames name (by simp [hname])
  have htext : (root.below (names ++ [last])).text = (root.below names).text ++ ('/' :: last) := by
    rw [below_eq (by simp) hnames, below_eq hne hplain]
    simp only [Text.join_append ['/'] hne (List.cons_ne_nil last []), Text.join, List.append_assoc,
      List.singleton_append]
  simp only [isUsable, Bool.and_eq_true, decide_eq_true_eq] at husable ⊢
  obtain ⟨hnul, hlength⟩ := husable
  rw [htext, Utf8.encode, List.flatMap_append, List.length_append] at hlength
  constructor
  · intro hmem
    exact hnul (by simp [htext, hmem])
  · exact Nat.lt_of_le_of_lt (Nat.le_add_right _ _) hlength

end Below

end Path

end EngineUpkeep
