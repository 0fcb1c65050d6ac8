import EngineUpkeep.CompileDatabase
import EngineUpkeep.Proofs.Path.Fold
import Mathlib.Logic.Relation

/-!
# Paths as stacks of names

What an absolute path names can be read off its text piece by piece
(`components_of_isAbsolute`), and a relative path that is joined to it goes on with its own pieces
(`components_join`). To fold such a path is therefore to run through the pieces of both texts with
one stack of names (`foldedNames_join`).

Pieces that leave the stack as it was can be put into either text (`stackOf_of_reflTransGen`). So
the source of a relative file of a compile database has one writing, however the directory and the
file are written (`CompileCommand.sourceFile_eq_stack`).
-/

namespace EngineUpkeep

namespace Path

variable {base path : Path} {stack : List Text} {text padded : Text}

/-! ## Absolute paths, piece by piece -/

theorem exists_text_of_isAbsolute (h : path.isAbsolute = true) :
    ∃ rest, path.text = '/' :: rest := by
  rw [isAbsolute, decide_eq_true_eq] at h
  exact List.head?_eq_some_iff.1 h

theorem text_ne_nil_of_isAbsolute (h : path.isAbsolute = true) : path.text ≠ [] := by
  obtain ⟨rest, htext⟩ := exists_text_of_isAbsolute h
  rw [htext]
  exact List.cons_ne_nil '/' rest

theorem isAbsolute_append (h : path.isAbsolute = true) (more : Text) :
    (Path.mk (path.text ++ more)).isAbsolute = true := by
  obtain ⟨rest, htext⟩ := exists_text_of_isAbsolute h
  rw [htext]
  rfl

/-- The components that the pieces of a text stand for. -/
def named (text : Text) : List Component :=
  (Text.pieces text '/').filterMap componentOf?

theorem named_append_slash (before after : Text) :
    named (before ++ '/' :: after) = named before ++ named after := by
  rw [named, Text.pieces_append_cons, List.filterMap_append]
  rfl

/-- Of an absolute path, the root directory is the component in front of the pieces. -/
theorem components_eq_cons (h : path.isAbsolute = true) :
    path.components = .root :: path.body.filterMap componentOf? := by
  rw [components, anchor, if_pos h, List.singleton_append]

/-- An absolute path names the root directory and what the pieces of its text stand for. The slash
of the root directory has nothing in front of it. -/
theorem components_of_isAbsolute (h : path.isAbsolute = true) :
    path.components = .root :: named path.text := by
  obtain ⟨rest, htext⟩ := exists_text_of_isAbsolute h
  rw [components_eq_cons h, body_eq, htext, withoutRoot]
  exact congrArg (Component.root :: ·) (named_append_slash [] rest).symm

theorem isAbsolute_join (h : base.isAbsolute = true) (path : Path) :
    (base.join path).isAbsolute = true := by
  rw [join]
  split
  · next habsolute => exact habsolute
  · split
    · exact isAbsolute_append h path.text
    · exact isAbsolute_append h ('/' :: path.text)

/-- A relative path that is joined to an absolute one goes on with its own pieces. -/
theorem named_join (hbase : base.isAbsolute = true) (hpath : path.isAbsolute = false) :
    named (base.join path).text = named base.text ++ named path.text := by
  rw [join, hpath, if_neg Bool.false_ne_true]
  by_cases hlast : base.text.getLast? = some '/'
  · -- The slash that the base ends in is the one between both.
    obtain ⟨before, hbefore⟩ := List.getLast?_eq_some_iff.1 hlast
    rw [if_pos (by simp [hlast]), hbefore, List.append_assoc, List.singleton_append,
      named_append_slash, named_append_slash]
    simp [named, Text.pieces, componentOf?, isIdle]
  · rw [if_neg (by simp [text_ne_nil_of_isAbsolute hbase, hlast])]
    exact named_append_slash base.text path.text

theorem components_join (hbase : base.isAbsolute = true) (hpath : path.isAbsolute = false) :
    (base.join path).components = base.components ++ named path.text := by
  rw [components_of_isAbsolute (isAbsolute_join hbase path), components_of_isAbsolute hbase,
    named_join hbase hpath, List.cons_append]

/-! ## Stacks -/

/-- What one piece does to a stack of names. A name is put on it, and `..` takes the last name off
if there is one. A dot does nothing, and neither does an empty piece. -/
def stackStep (stack : List Text) (piece : Text) : List Text :=
  if piece = [] ∨ piece = ['.'] then stack
  else if piece = ['.', '.'] then stack.dropLast
  else stack ++ [piece]

/-- What the pieces of a text do to a stack of names, one after the other. -/
def stackOf (stack : List Text) (text : Text) : List Text :=
  (Text.pieces text '/').foldl stackStep stack

theorem stackOf_append_slash (stack : List Text) (before after : Text) :
    stackOf stack (before ++ '/' :: after) = stackOf (stackOf stack before) after := by
  rw [stackOf, Text.pieces_append_cons, List.foldl_append]
  rfl

theorem stackOf_of_isPlain {name : Text} (h : IsPlain name) (stack : List Text) :
    stackOf stack name = stack ++ [name] := by
  rw [stackOf, Text.pieces_of_notMem h.slash_notMem, List.foldl_cons, List.foldl_nil, stackStep,
    if_neg (by simp [h.ne_nil, h.ne_here]), if_neg h.ne_up]

/-- To carry out the components of a text is to run through its pieces. -/
theorem foldl_foldStep_named (stack : List Text) (text : Text) :
    (named text).foldl foldStep stack = stackOf stack text := by
  rw [named, stackOf, List.foldl_filterMap]
  congr 1
  -- A component does to a stack what the piece does that stands for it.
  funext stack piece
  rw [stackStep, componentOf?]
  by_cases hidle : piece = [] ∨ piece = ['.']
  · rw [if_pos hidle, if_pos (by simpa [isIdle] using hidle)]
  · rw [if_neg hidle, if_neg (by simpa [isIdle] using hidle)]
    by_cases hup : piece = ['.', '.']
    · rw [if_pos hup, if_pos hup]
      rfl
    · rw [if_neg hup, if_neg hup]
      rfl

/-- The names that are left of an absolute path are the stack that its pieces leave. -/
theorem foldedNames_of_isAbsolute (h : path.isAbsolute = true) :
    path.foldedNames = stackOf [] path.text := by
  rw [foldedNames, components_of_isAbsolute h, List.foldl_cons]
  exact foldl_foldStep_named [] path.text

/-- The stack that a folded path leaves is the one of the path. -/
theorem stackOf_fold (h : path.isAbsolute = true) :
    stackOf [] path.fold.text = stackOf [] path.text := by
  rw [← foldedNames_of_isAbsolute h, ← foldedNames_fold,
    foldedNames_of_isAbsolute ((isAbsolute_fold path).trans h)]

/-- Folding a relative path behind an absolute one runs through the pieces of both texts. -/
theorem foldedNames_join (hbase : base.isAbsolute = true) (hpath : path.isAbsolute = false) :
    (base.join path).foldedNames = stackOf (stackOf [] base.text) path.text := by
  rw [foldedNames, components_join hbase hpath, List.foldl_append, foldl_foldStep_named]
  exact congrArg (stackOf · path.text) (foldedNames_of_isAbsolute hbase)

/-! ## Pieces that change no stack -/

/-- A text that leads from a place back to it. -/
inductive Padding : Text → Prop where
  /-- `./` stays where it is. -/
  | dot : Padding ['.', '/']
  /-- `name/../` goes into an entry and out of it again. -/
  | detour {name : Text} (h : IsPlain name) : Padding (name ++ ['/', '.', '.', '/'])
  /-- A slash beside another one. -/
  | slash : Padding ['/']

/-- The second text is the first with one such text put into it, where a component could begin. -/
inductive Pads : Text → Text → Prop where
  /-- At the front. -/
  | front {padding : Text} (h : Padding padding) (text : Text) : Pads text (padding ++ text)
  /-- Behind a slash. -/
  | behind {padding : Text} (h : Padding padding) (before after : Text) :
    Pads (before ++ '/' :: after) (before ++ '/' :: (padding ++ after))
  /-- A slash at the end. -/
  | ending (text : Text) : Pads text (text ++ ['/'])

theorem stackOf_of_padding {padding : Text} (h : Padding padding) (stack : List Text)
    (text : Text) : stackOf stack (padding ++ text) = stackOf stack text := by
  cases h with
  | dot => exact stackOf_append_slash stack ['.'] text
  | slash => exact stackOf_append_slash stack [] text
  | @detour name h =>
    have hsplit :
        name ++ ['/', '.', '.', '/'] ++ text = name ++ '/' :: (['.', '.'] ++ '/' :: text) := by
      simp
    rw [hsplit, stackOf_append_slash, stackOf_append_slash, stackOf_of_isPlain h]
    -- The name that was put on the stack is the one that `..` takes off again.
    have hup : stackOf (stack ++ [name]) ['.', '.'] = stack := List.dropLast_concat
    rw [hup]

theorem stackOf_of_pads (h : Pads text padded) (stack : List Text) :
    stackOf stack padded = stackOf stack text := by
  cases h with
  | front h => exact stackOf_of_padding h stack text
  | behind h before after =>
    rw [stackOf_append_slash, stackOf_append_slash, stackOf_of_padding h]
  | ending => exact stackOf_append_slash stack text []

/-- However often a text is padded, it does the same to a stack. -/
theorem stackOf_of_reflTransGen (h : Relation.ReflTransGen Pads text padded)
    (stack : List Text) : stackOf stack padded = stackOf stack text := by
  induction h with
  | refl => rfl
  | tail _ h ih => rw [stackOf_of_pads h, ih]

end Path

namespace CompileCommand

variable {entry : CompileCommand}

/-! ## Sources of compile databases -/

/-- The stack that is left when the pieces of the directory are gone through, and then those of the
file. -/
def stack (entry : CompileCommand) : List Text :=
  Path.stackOf (Path.stackOf [] entry.directory) entry.file

/-- The source of a relative file is written as the names on this stack. -/
theorem sourceFile_eq_ofNames (hdirectory : (Path.mk entry.directory).isAbsolute = true)
    (hfile : (Path.mk entry.file).isAbsolute = false) :
    entry.sourceFile = Path.ofNames true entry.stack := by
  rw [sourceFile, if_neg (by simp [hfile]), Path.fold_eq, Path.isAbsolute_join hdirectory,
    Path.foldedNames_join hdirectory hfile, stack]

/-- Directories that leave the same stack and files that do the same to it have one source. -/
theorem sourceFile_eq_of_stackOf_eq {directory file : Text}
    (hdirectory : (Path.mk entry.directory).isAbsolute = true)
    (hfile : (Path.mk entry.file).isAbsolute = false)
    (hdirectory' : (Path.mk directory).isAbsolute = true)
    (hfile' : (Path.mk file).isAbsolute = false)
    (hstack : Path.stackOf [] directory = Path.stackOf [] entry.directory)
    (hfiles : ∀ stack, Path.stackOf stack file = Path.stackOf stack entry.file) :
    { entry with directory := directory, file := file }.sourceFile = entry.sourceFile := by
  rw [sourceFile_eq_ofNames hdirectory hfile, sourceFile_eq_ofNames hdirectory' hfile', stack,
    stack, hstack, hfiles]

/-- The source of a relative file seen from an absolute directory is written in one way: it is the
root directory and the names on the stack that the directory and the file leave. Folding it again
changes nothing, and neither does folding the directory or padding either text. -/
theorem sourceFile_eq_stack (entry : CompileCommand)
    (hdirectory : (Path.mk entry.directory).isAbsolute = true)
    (hfile : (Path.mk entry.file).isAbsolute = false) :
    entry.sourceFile = ⟨'/' :: Text.join ['/'] entry.stack⟩ ∧
      entry.sourceFile.isAbsolute = true ∧
      entry.sourceFile.components = .root :: entry.stack.map .name ∧
      (∀ name ∈ entry.stack, Path.IsPlain name) ∧
      entry.sourceFile.fold = entry.sourceFile ∧
      { entry with directory := (Path.mk entry.directory).fold.text }.sourceFile =
        entry.sourceFile ∧
      ∀ directory file : Text,
        (Path.mk directory).isAbsolute = true → (Path.mk file).isAbsolute = false →
        Relation.ReflTransGen Path.Pads entry.directory directory →
        Relation.ReflTransGen Path.Pads entry.file file →
          { entry with directory := directory, file := file }.sourceFile = entry.sourceFile := by
  have hsource := sourceFile_eq_ofNames hdirectory hfile
  have hplain : ∀ name ∈ entry.stack, Path.IsPlain name := by
    rw [stack, ← Path.foldedNames_join hdirectory hfile]
    exact fun name hname => Path.isPlain_of_mem_foldedNames hname
  refine ⟨hsource, ?absolute, ?components, hplain, ?folded, ?foldedDirectory, ?padded⟩
  case absolute => rw [hsource, Path.isAbsolute_ofNames true hplain]
  case components =>
    rw [hsource, Path.components_ofNames true hplain, if_pos rfl, List.singleton_append]
  case folded => rw [sourceFile, if_neg (by simp [hfile]), Path.fold_fold]
  case foldedDirectory =>
    exact sourceFile_eq_of_stackOf_eq hdirectory hfile
      ((Path.isAbsolute_fold _).trans hdirectory) hfile (Path.stackOf_fold hdirectory) fun _ => rfl
  case padded =>
    -- Padding the file changes no stack, so it does not matter which one the directory leaves.
    intro directory file hdirectory' hfile' hdirectories hfiles
    exact sourceFile_eq_of_stackOf_eq hdirectory hfile hdirectory' hfile'
      (Path.stackOf_of_reflTransGen hdirectories []) (Path.stackOf_of_reflTransGen hfiles)

/-- Two `..` more than the directory is deep end at the root, and `Core//./gen/../Foo.cpp` is
padded. -/
theorem sourceFile_eq_stack_deep :
    (CompileCommand.mk "/src/build" "../../../../Core/Foo.cpp" none none none).sourceFile =
        ⟨"/Core/Foo.cpp"⟩ ∧
      (CompileCommand.mk "//src/./build/" "../../../../Core//./gen/../Foo.cpp"
        none none none).sourceFile = ⟨"/Core/Foo.cpp"⟩ := by
  have h := sourceFile_eq_stack
    (CompileCommand.mk "/src/build" "../../../../Core/Foo.cpp" none none none)
    (by decide) (by decide)
  have hsource :
      (CompileCommand.mk "/src/build" "../../../../Core/Foo.cpp" none none none).sourceFile =
        ⟨"/Core/Foo.cpp"⟩ := h.1.trans (by decide)
  refine ⟨hsource, (h.2.2.2.2.2.2 _ _ (by decide) (by decide) ?directory ?file).trans hsource⟩
  case directory =>
    have hfront : Path.Pads "/src/build" "//src/build" := .front .slash _
    have hdot : Path.Pads "//src/build" "//src/./build" :=
      .behind .dot "//src".toList "build".toList
    have hending : Path.Pads "//src/./build" "//src/./build/" := .ending _
    exact ((Relation.ReflTransGen.single hfront).tail hdot).tail hending
  case file =>
    have hslash : Path.Pads "../../../../Core/Foo.cpp" "../../../../Core//Foo.cpp" :=
      .behind .slash "../../../../Core".toList "Foo.cpp".toList
    have hdot : Path.Pads "../../../../Core//Foo.cpp" "../../../../Core//./Foo.cpp" :=
      .behind .dot "../../../../Core/".toList "Foo.cpp".toList
    have hdetour : Path.Pads "../../../../Core//./Foo.cpp" "../../../../Core//./gen/../Foo.cpp" :=
      .behind (.detour (by decide : Path.IsPlain "gen".toList)) "../../../../Core//.".toList
        "Foo.cpp".toList
    exact ((Relation.ReflTransGen.single hslash).tail hdot).tail hdetour

end CompileCommand

end EngineUpkeep
