import EngineUpkeep.Proofs.Analysis.Alike
import EngineUpkeep.Proofs.Analysis.Arguments

/-!
# Analyses of named files

If the command line names a file, the compile database is looked for, but nothing of what it holds
is used (`agrees_runUnder_of_named`), and neither are the patterns of the request and of the settings
(`runUnder_of_named_patterns`). The files that are analyzed are the named ones, in the order in which
they are named, and all other words are handed to the analyzer (`exists_startsOnNamed`).
-/

namespace EngineUpkeep

/-! ## The words of the command line -/

namespace Targets

variable {tree tree' : FileTree} {current : Location} {root : Path} {word : Text}

/-- A word names a file to analyze: it leads to a file, seen from the project root, and has one of
the extensions. -/
def isNamed (tree : FileTree) (current : Location) (root : Path) (word : Text) : Bool :=
  tree.isFile current (root.join ⟨word⟩) && (root.join ⟨word⟩).extensionIsIn namedExtensions

/-- A word that names a file is replaced by the canonical path of the file. -/
theorem exists_file?_of_isNamed (h : isNamed tree current root word = true) :
    ∃ file, file? tree current root word = some file ∧
      tree.canonical current (root.join ⟨word⟩) = .ok ⟨file⟩ := by
  rw [isNamed] at h
  obtain ⟨resolved, hresolved⟩ :=
    FileTree.exists_canonical_of_isFile (Bool.and_eq_true_iff.1 h).1
  refine ⟨resolved.text, ?_, hresolved⟩
  rw [file?, if_pos h, hresolved]

theorem file?_of_not_isNamed (h : ¬ isNamed tree current root word = true) :
    file? tree current root word = none := by
  rw [file?]
  exact if_neg h

/-- The files are the canonical paths of those that are named, in order. -/
theorem forall₂_files_ofWords (tree : FileTree) (current : Location) (root : Path)
    (words : List Text) :
    List.Forall₂ (fun word file => tree.canonical current (root.join ⟨word⟩) = .ok ⟨file⟩)
      (words.filter (isNamed tree current root)) (ofWords tree current root words).files := by
  rw [ofWords]
  dsimp only
  induction words with
  | nil => exact .nil
  | cons word words ih =>
    by_cases hnamed : isNamed tree current root word = true
    · obtain ⟨file, hfile, hcanonical⟩ := exists_file?_of_isNamed hnamed
      rw [List.filter_cons_of_pos hnamed, List.filterMap_cons_some hfile]
      exact .cons hcanonical ih
    · rw [List.filter_cons_of_neg hnamed, List.filterMap_cons_none (file?_of_not_isNamed hnamed)]
      exact ih

/-- All other words are handed to the analyzer, in order. -/
theorem forAnalyzer_ofWords (tree : FileTree) (current : Location) (root : Path)
    (words : List Text) :
    (ofWords tree current root words).forAnalyzer =
      words.filter fun word => !isNamed tree current root word := by
  refine List.filter_congr fun word _ => ?_
  by_cases hnamed : isNamed tree current root word = true
  · obtain ⟨file, hfile, -⟩ := exists_file?_of_isNamed hnamed
    rw [hfile, hnamed]
    rfl
  · rw [file?_of_not_isNamed hnamed, eq_false_of_ne_true hnamed]
    rfl

/-- There are files to analyze if a word names one. -/
theorem files_ofWords_ne_nil {words : List Text}
    (h : ∃ word ∈ words, isNamed tree current root word = true) :
    (ofWords tree current root words).files ≠ [] := by
  obtain ⟨word, hmem, hnamed⟩ := h
  obtain ⟨file, hfile, -⟩ := exists_file?_of_isNamed hnamed
  exact List.ne_nil_of_mem (List.mem_filterMap.2 ⟨word, hmem, hfile⟩)

/-- What files hold makes no difference to which words name a file. -/
theorem isNamed_of_sameShape (h : FileTree.SameShape tree tree') (current : Location)
    (root : Path) : isNamed tree' current root = isNamed tree current root := by
  funext word
  rw [isNamed, isNamed, h.isFile_eq]

/-- Nor to how the words are split. -/
theorem ofWords_of_sameShape (h : FileTree.SameShape tree tree') (current : Location) (root : Path)
    (words : List Text) : ofWords tree' current root words = ofWords tree current root words := by
  have hfile : file? tree' current root = file? tree current root := by
    funext word
    rw [file?, file?, h.isFile_eq, h.canonical_eq]
  rw [ofWords, ofWords, hfile]

end Targets

/-- What files hold makes no difference to where the compile database is. -/
theorem CompileDatabase.find_of_sameShape {tree tree' : FileTree}
    (h : FileTree.SameShape tree tree') (current : Location) (project : Project)
    (asked? : Option Path) :
    find tree' current project asked? = find tree current project asked? := by
  cases asked? with
  | none => rw [find, find, h.isFile_eq]
  | some asked => rw [find, find, h.isFile_eq]

namespace Analysis

/-- What is told before named files are analyzed. -/
def namedNotices (request : Request) (database : Path) (count : Nat) : List Text :=
  ("Using compile commands: " ++ database.text ++ "\n") ::
    if request.options.verbose then ["Analyzing " ++ Text.ofNat count ++ " specified file(s)\n"]
    else []

/-- The words that name no file, in order. -/
def otherWords (host : Host) (project : Project) (request : Request) : List Text :=
  request.trailing.filter fun word =>
    !Targets.isNamed host.tree host.current project.root word

/-- The arguments for a batch of named files. -/
def namedArguments (host : Host) (project : Project) (request : Request) (database : Path)
    (plugin? : Option Path) (batch : Batch) : List Text :=
  let others := otherWords host project request
  ("-p=" ++ (database.parent?.getD project.root).text) ::
    (if request.options.fix then ["--fix"] else []) ++ loads plugin? others ++ others ++ batch

/-- The analyzer was started on batches of the named files, and nothing else was started then. -/
structure StartsOnNamed (host : Host) (project : Project) (request : Request) (database : Path)
    (plugin? : Option Path) (batches : List Batch) (session : Session) : Prop where
  /-- The batches, one after the other, are the canonical paths of the named files, in order. -/
  files : List.Forall₂
    (fun word file =>
      host.tree.canonical host.current (project.root.join ⟨word⟩) = .ok ⟨file⟩)
    (request.trailing.filter (Targets.isNamed host.tree host.current project.root))
    batches.flatten
  /-- A batch has at least one file and at most as many as the settings allow. -/
  length_le : ∀ batch ∈ batches,
    1 ≤ batch.length ∧ batch.length ≤ project.settings.analysis.usableBatchSize
  /-- The starts that are told are one on each batch. -/
  perm : session.invocations.Perm
    (batches.map (namedArguments host project request database plugin?))
  /-- If there is one worker, they are on the batches in order. -/
  inTurn : request.options.jobs ≤ 1 →
    session.invocations = batches.map (namedArguments host project request database plugin?)
  /-- The starts that are told, and no others, have made of the host what is left. -/
  startsEach : StartsEach host project (optionsFor host project request) session

section Named

variable {host : Host} {schedule schedule' : Nat → List Step} {project : Project}
  {request : Request} {database : Path}
  (hfind : CompileDatabase.find host.tree host.current project request.buildDirectory? =
    .ok database)
  (hnamed : ∃ word ∈ request.trailing,
    Targets.isNamed host.tree host.current project.root word = true)
include hfind hnamed

/-- With a named file, a session is that of the named files, after notices. -/
theorem runUnder_of_named (schedule : Nat → List Step) (interruption : Interruption) :
    let files := (Targets.ofWords host.tree host.current project.root request.trailing).files
    runUnder schedule host project request interruption =
      (ofFilesUnder schedule host project files database (optionsFor host project request)
        interruption).afterNotices request.options.json
        (namedNotices request database files.length) := by
  intro files
  rw [runUnder, hfind]
  dsimp only
  rw [if_neg (Targets.files_ofWords_ne_nil hnamed)]
  rfl

/-- With a named file, the patterns of the settings and of the request make no difference. -/
theorem runUnder_of_named_patterns (filter : FilterSection) (includes excludes : List Text)
    (schedule : Nat → List Step) (interruption : Interruption) :
    runUnder schedule host { project with settings := { project.settings with filter } }
      { request with includes, excludes } interruption =
      runUnder schedule host project request interruption := by
  -- The other session is about the same files, and patterns stand nowhere in what it comes to.
  have hsession := runUnder_of_named hfind hnamed schedule interruption
  rw [hsession]
  refine runUnder_of_named ?_ ?_ schedule interruption
  · exact hfind
  · exact hnamed

/-- On hosts that are alike, sessions about named files agree if they are not interrupted. -/
theorem agrees_runUnder_of_named {location : Location}
    {answer : Option Path → Text → List Text → Option Execution} {host' : Host}
    (h : Host.Alike location answer host host')
    (hcovers : ∀ count, Pool.Covers count (schedule count))
    (hcovers' : ∀ count, Pool.Covers count (schedule' count))
    {interruption interruption' : Interruption}
    (hgo : (runUnder schedule host project request interruption).outcome? ≠ some .interrupted)
    (hgo' : (runUnder schedule' host' project request interruption').outcome? ≠
      some .interrupted) :
    Session.Agrees (request.options.jobs ≤ 1)
      (runUnder schedule host project request interruption)
      (runUnder schedule' host' project request interruption') := by
  have hshape := h.sameBut.sameShape
  have hwords := Targets.ofWords_of_sameShape hshape host.current project.root request.trailing
  have hfind' : CompileDatabase.find host'.tree host'.current project request.buildDirectory? =
      .ok database := by
    rw [h.current_eq, CompileDatabase.find_of_sameShape hshape, hfind]
  have hnamed' : ∃ word ∈ request.trailing,
      Targets.isNamed host'.tree host'.current project.root word = true := by
    rw [h.current_eq, Targets.isNamed_of_sameShape hshape]
    exact hnamed
  have hoptions : optionsFor host' project request = optionsFor host project request := by
    rw [optionsFor, optionsFor, h.current_eq, hwords]
  -- Both sessions are about the same files now, and only these are looked at from here on.
  rw [runUnder_of_named hfind hnamed] at hgo ⊢
  rw [runUnder_of_named hfind' hnamed', h.current_eq, hwords, hoptions] at hgo' ⊢
  rw [Session.outcome?_afterNotices] at hgo hgo'
  exact (agrees_ofFilesUnder h hcovers hcovers' project _ database (optionsFor host project request)
    hgo hgo').afterNotices _ _

/-- If a session about named files completes, the analyzer was started on batches of them. -/
theorem exists_startsOnNamed (schedule : Nat → List Step) {interruption : Interruption} {code : Int}
    {report : Report}
    (hcompleted : (runUnder schedule host project request interruption).outcome? =
      some (.completed code report)) :
    ∃ plugin? batches, StartsOnNamed host project request database plugin? batches
      (runUnder schedule host project request interruption) := by
  obtain ⟨output, errors, hsession⟩ := Session.exists_afterNotices_eq request.options.json
    (namedNotices request database
      (Targets.ofWords host.tree host.current project.root request.trailing).files.length)
    (ofFilesUnder schedule host project
      (Targets.ofWords host.tree host.current project.root request.trailing).files database
      (optionsFor host project request) interruption)
  rw [runUnder_of_named hfind hnamed, hsession] at hcompleted
  rw [runUnder_of_named hfind hnamed, hsession]
  obtain ⟨exe, left, hexe, hperm, hinTurn, htree⟩ := invocations_of_completed hcompleted
  -- The words that name no file are the extra arguments, behind those that load a plugin.
  have harguments : (invocation project (optionsFor host project request) exe
      (plugin? left project (optionsFor host project request)) database).arguments =
      namedArguments host project request database
        (plugin? left project (optionsFor host project request)) := by
    funext batch
    have hothers : (optionsFor host project request).extraArguments =
        otherWords host project request := Targets.forAnalyzer_ofWords ..
    rw [arguments_invocation, frontArguments, hothers, namedArguments]
    simp only [List.cons_append, List.append_assoc]
    rfl
  rw [harguments] at hperm hinTurn
  refine ⟨_, _, ?_, fun batch hbatch => ?_, hperm, hinTurn, exe, left, hexe, htree⟩
  · rw [Workload.batches, Batch.flatten_batches]
    exact Targets.forall₂_files_ofWords ..
  -- The size is limited already, so limiting it once more changes nothing.
  · have hlength := Batch.length_of_mem_batches hbatch
    rwa [show clampBatchSize (workload project (optionsFor host project request)).batchSize =
      project.settings.analysis.usableBatchSize from
        clampBatchSize_clampBatchSize project.settings.analysis.batchSize] at hlength

end Named

/-- If the command line names a file, neither what one file holds, such as the compile database, nor
any pattern makes a difference to a session that is not interrupted, where programs answer by what
they are called with and do the same to trees that differ in that file alone. A session that
completes has analyzed the named files in order, and all other words were handed to the analyzer. -/
theorem agrees_and_startsOnNamed {host : Host}
    {answer : Option Path → Text → List Text → Option Execution} (hanswer : host.Answers answer)
    {location : Location} (hblind : host.IsBlindTo location) {schedule schedule' : Nat → List Step}
    (hcovers : ∀ count, Pool.Covers count (schedule count))
    (hcovers' : ∀ count, Pool.Covers count (schedule' count)) {project : Project}
    {request : Request} {database : Path}
    (hfind : CompileDatabase.find host.tree host.current project request.buildDirectory? =
      .ok database)
    (hnamed : ∃ word ∈ request.trailing,
      Targets.isNamed host.tree host.current project.root word = true)
    {tree' : FileTree} (htree : FileTree.SameBut location host.tree tree') (filter : FilterSection)
    (includes excludes : List Text) {interruption interruption' : Interruption}
    (hgo : (runUnder schedule host project request interruption).outcome? ≠ some .interrupted)
    (hgo' : (runUnder schedule' { host with tree := tree' }
      { project with settings := { project.settings with filter } }
      { request with includes, excludes } interruption').outcome? ≠ some .interrupted) :
    let session := runUnder schedule host project request interruption
    Session.Agrees (request.options.jobs ≤ 1) session
        (runUnder schedule' { host with tree := tree' }
          { project with settings := { project.settings with filter } }
          { request with includes, excludes } interruption') ∧
      ∀ code report, session.outcome? = some (.completed code report) →
        ∃ plugin? batches,
          StartsOnNamed host project request database plugin? batches session := by
  have halike : Host.Alike location answer host { host with tree := tree' } :=
    ⟨rfl, rfl, rfl, hanswer, hblind, htree⟩
  have hshape := htree.sameShape
  have hfind' : CompileDatabase.find tree' host.current project request.buildDirectory? =
      .ok database := (CompileDatabase.find_of_sameShape hshape ..).trans hfind
  have hnamed' : ∃ word ∈ request.trailing,
      Targets.isNamed tree' host.current project.root word = true := by
    rwa [Targets.isNamed_of_sameShape hshape]
  have hpatterns : runUnder schedule' { host with tree := tree' }
      { project with settings := { project.settings with filter } }
      { request with includes, excludes } interruption' =
        runUnder schedule' { host with tree := tree' } project request interruption' := by
    apply runUnder_of_named_patterns
    · exact hfind'
    · exact hnamed'
  -- What is left is the same project and request on two trees.
  rw [hpatterns] at hgo' ⊢
  exact ⟨agrees_runUnder_of_named hfind hnamed halike hcovers hcovers' hgo hgo',
    fun code report => exists_startsOnNamed hfind hnamed schedule⟩

/-! ## A project with a named file -/

/-- The host of the small project, with a source and a link to it. -/
def linkHost : Host :=
  { smallHost with
    tree := { entries := [(["p"], .directory), (["p", "b"], .directory),
      (["p", "b", databaseName], .file (.text smallDatabase) false),
      (["p", "a.cpp"], .file (.text []) false), (["p", "x.cpp"], .link ⟨"a.cpp"⟩)] } }

/-- A request that names a source twice, between words for the analyzer. -/
def linkRequest : Request :=
  { trailing := ["x.cpp", "-checks=*", "a.cpp", "gone.cpp"] }

/-- A source that is named twice is analyzed twice, also where the compile database holds no text
and the patterns exclude every source. -/
theorem agrees_and_startsOnNamed_link :
    let session := runUnder Pool.inOrder linkHost smallProject linkRequest .never
    let session' := runUnder Pool.looksFirst
      { linkHost with
        tree := linkHost.tree.put ["p", "b", databaseName] (.file (.binary [0xff]) false) }
      { smallProject with settings := { smallProject.settings with filter := ⟨[[]]⟩ } }
      { linkRequest with includes := ["none"], excludes := [[]] } .never
    session.invocations =
        ([["-p=/p/b", "-checks=*", "gone.cpp", "/p/a.cpp", "/p/a.cpp"]] : List (List Text)) ∧
      session'.result = session.result ∧ session'.output = session.output ∧
      session'.invocations = session.invocations ∧
      ∃ plugin? batches, StartsOnNamed linkHost smallProject linkRequest
        ⟨"/p/b/compile_commands.json"⟩ plugin? batches session := by
  intro session session'
  have hanswer : linkHost.Answers fun directory? exe arguments =>
      (linkHost.start .empty directory? exe arguments).1 := fun _ _ _ _ => rfl
  have hblind : linkHost.IsBlindTo ["p", "b", databaseName] := fun _ _ _ _ _ h => h
  have hfind : CompileDatabase.find linkHost.tree linkHost.current smallProject none =
      .ok ⟨"/p/b/compile_commands.json"⟩ := by decide +kernel
  have hnamed : ∃ word ∈ linkRequest.trailing,
      Targets.isNamed linkHost.tree linkHost.current smallProject.root word = true := by
    decide +kernel
  have hentry : linkHost.tree.entryAt? ["p", "b", databaseName] =
      some (.file (.text smallDatabase) false) := by decide +kernel
  have houtcome : session.outcome? = some (.completed 0 .empty) := by decide +kernel
  have houtcome' : session'.outcome? = some (.completed 0 .empty) := by decide +kernel
  obtain ⟨hagrees, hnamed⟩ := agrees_and_startsOnNamed hanswer hblind Pool.covers_inOrder
    Pool.covers_looksFirst hfind hnamed (FileTree.sameBut_put hentry (.binary [0xff])) ⟨[[]]⟩
    ["none"] [[]] (fun h => nomatch houtcome.symm.trans h) (fun h => nomatch houtcome'.symm.trans h)
  exact ⟨by decide +kernel, hagrees.result_eq, hagrees.output_eq,
    hagrees.invocations_eq (Nat.le_refl 1), hnamed 0 .empty houtcome⟩

end Analysis

end EngineUpkeep
