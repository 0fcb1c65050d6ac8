import EngineUpkeep.Proofs.Analysis.Starts
import EngineUpkeep.Proofs.Selection.Membership
import EngineUpkeep.Proofs.Workload.Coverage

/-!
# The sources that are analyzed

An analysis without files on its command line is about the sources of the compile database. If it
completes, the analyzer was started on exactly those that are selected, each of them once, in batches
that are full but for the last one, and nothing else was started then (`runUnder_database`). If none
is selected, no program is started.

What the analyzer does, what programs do to the file tree and when the flag goes up makes no
difference to this.
-/

namespace EngineUpkeep

namespace Session

/-- A notice changes nothing but what is printed. -/
theorem exists_afterNotice_eq (json : Bool) (notice : Text) (session : Session) :
    ∃ output errors, session.afterNotice json notice = { session with output, errors } := by
  cases json with
  | false => exact ⟨_, session.errors, rfl⟩
  | true => exact ⟨session.output, _, rfl⟩

/-- Nor do several notices. -/
theorem exists_afterNotices_eq (json : Bool) (notices : List Text) (session : Session) :
    ∃ output errors, session.afterNotices json notices = { session with output, errors } := by
  induction notices with
  | nil => exact ⟨session.output, session.errors, rfl⟩
  | cons notice notices ih =>
    obtain ⟨output, errors, hrest⟩ := ih
    obtain ⟨output', errors', hfirst⟩ :=
      exists_afterNotice_eq json notice (session.afterNotices json notices)
    refine ⟨output', errors', ?_⟩
    rw [afterNotices, List.foldr_cons, ← afterNotices, hfirst, hrest]

end Session

/-- Files are cut into batches of the size of the settings. The size is brought into its range twice,
by the settings and by the cut. -/
theorem AnalysisSection.isCut_batches (settings : AnalysisSection) {files : List Text}
    (hfiles : files ≠ []) (hnodup : files.Nodup) :
    Batch.IsCut settings.usableBatchSize files (Batch.batches settings.usableBatchSize files) := by
  have hsize : clampBatchSize settings.usableBatchSize = settings.usableBatchSize :=
    clampBatchSize_clampBatchSize settings.batchSize
  have hcut := Batch.isCut_batches settings.usableBatchSize hfiles hnodup
  rwa [hsize] at hcut

namespace Selection

variable {entries : List CompileCommand} {root : Path} {includes excludes : List Text} {file : Text}

/-- No source is selected twice. -/
theorem nodup_ofDatabase (entries : List CompileCommand) (root : Path)
    (includes excludes : List Text) : (ofDatabase entries root includes excludes).Nodup := by
  refine (pairwise_ofDatabase entries root includes excludes).imp fun {first second} hlt heq => ?_
  rw [heq] at hlt
  exact List.lt_irrefl second hlt

/-- A selected source has a key, and no pattern of what is left out is in it. -/
theorem exists_key_of_mem_ofDatabase (h : file ∈ ofDatabase entries root includes excludes) :
    ∃ key, Path.key? root ⟨file⟩ = some key ∧
      ∀ pattern ∈ excludes, Text.contains key pattern = false := by
  obtain ⟨-, hselected⟩ := mem_ofDatabase_iff.1 h
  obtain ⟨key, hkey, -, hexcludes⟩ := hselected.passes
  refine ⟨key, hkey, fun pattern hpattern => ?_⟩
  rw [← Bool.not_eq_true, Text.contains_iff]
  exact hexcludes pattern hpattern

end Selection

namespace Analysis

variable {schedule : Nat → List Step} {host left : Host} {project : Project} {request : Request}
  {files : List Text} {database : Path} {options : AnalysisOptions} {interruption : Interruption}
  {exe : Text}

/-- The run of an analyzer that was found, over files. -/
theorem ofFilesUnder_of_find (hfiles : files ≠ [])
    (hfind : Tool.find host project.settings.analysis = (.ok exe, left)) :
    ofFilesUnder schedule host project files database options interruption =
      Session.afterNotices options.json
        (pluginNotices left project options exe (plugin? left project options)).1
        (ofRun options.json
          (invocation project options exe (plugin? left project options) database)
          ((workload project options).runUnder
            (invocation project options exe (plugin? left project options) database).run
            interruption (schedule ((workload project options).batches files).length) files
            (pluginNotices left project options exe (plugin? left project options)).2)) := by
  rw [ofFilesUnder, if_neg hfiles, hfind]

/-- An analysis of files starts the analyzer on none of them, or it is told by a run of the analyzer
that was found. -/
theorem ofFilesUnder_cases (schedule : Nat → List Step) (host : Host) (project : Project)
    (files : List Text) (database : Path) (options : AnalysisOptions)
    (interruption : Interruption) :
    let session := ofFilesUnder schedule host project files database options interruption
    (session.outcome? = none ∧ session.invocations = []) ∨
    files ≠ [] ∧ ∃ exe left, Tool.find host project.settings.analysis = (.ok exe, left) ∧
      let plugin? := plugin? left project options
      let start := (pluginNotices left project options exe plugin?).2
      let invocation := invocation project options exe plugin? database
      let run := (workload project options).runUnder invocation.run interruption
        (schedule ((workload project options).batches files).length) files start
      session.outcome? = some run.outcome ∧
      session.invocations = run.calls.map invocation.arguments ∧
      session.tree = (start.launchEach (some project.root) exe session.invocations).tree := by
  intro session
  by_cases hfiles : files = []
  · obtain ⟨output, errors, hended⟩ := Session.exists_afterNotice_eq options.json
      "No source files to analyze." { result := .ok 0, tree := host.tree }
    have hsession : session = { result := .ok 0, tree := host.tree, output, errors } :=
      (if_pos hfiles).trans hended
    rw [hsession]
    exact .inl ⟨rfl, rfl⟩
  rcases hfind : Tool.find host project.settings.analysis with ⟨failure | exe, left⟩
  · have hsession : session = .failed left.tree failure :=
      (if_neg hfiles).trans (by rw [hfind])
    rw [hsession]
    exact .inl ⟨rfl, rfl⟩
  · refine .inr ⟨hfiles, exe, left, rfl, ?_⟩
    intro plugin? start invocation run
    obtain ⟨output, errors, hnotices⟩ := Session.exists_afterNotices_eq options.json
      (pluginNotices left project options exe plugin?).1 (ofRun options.json invocation run)
    have hsession : session = { ofRun options.json invocation run with output, errors } :=
      (ofFilesUnder_of_find hfiles hfind).trans hnotices
    rw [hsession]
    exact ⟨rfl, rfl, tree_ofRun options.json invocation _ interruption _ files start⟩

/-- An analysis of files that completes has started the analyzer once on each batch of them, and
nothing else after that. -/
theorem invocations_of_completed {code : Int} {report : Report}
    (h : (ofFilesUnder schedule host project files database options interruption).outcome? =
      some (.completed code report)) :
    let session := ofFilesUnder schedule host project files database options interruption
    ∃ exe left, Tool.find host project.settings.analysis = (.ok exe, left) ∧
      let plugin? := plugin? left project options
      let invocation := invocation project options exe plugin? database
      let batches := (workload project options).batches files
      session.invocations.Perm (batches.map invocation.arguments) ∧
      (options.jobs ≤ 1 → session.invocations = batches.map invocation.arguments) ∧
      session.tree = ((pluginNotices left project options exe plugin?).2.launchEach
        (some project.root) exe session.invocations).tree := by
  intro session
  obtain ⟨hnone, -⟩ | ⟨-, exe, left, hfind, houtcome, hinvocations, htree⟩ :=
    ofFilesUnder_cases schedule host project files database options interruption
  · rw [hnone] at h
    cases h
  rw [houtcome] at h
  obtain ⟨hperm, hinTurn⟩ := (workload project options).calls_of_completed (Option.some.inj h)
  refine ⟨exe, left, hfind, ?_, fun hjobs => ?_, htree⟩
  · exact (List.Perm.of_eq hinvocations).trans (hperm.map _)
  · exact hinvocations.trans (congrArg (List.map _) (hinTurn hjobs))

/-- How the analyzer is run: words of the command line that name no files are handed to it. -/
def optionsFor (host : Host) (project : Project) (request : Request) : AnalysisOptions :=
  { request.options with
    extraArguments :=
      (Targets.ofWords host.tree host.current project.root request.trailing).forAnalyzer }

section Database

variable {entries : List CompileCommand}
  (hfind : CompileDatabase.find host.tree host.current project request.buildDirectory? =
    .ok database)
  (hload : CompileDatabase.load host.tree host.current database = .ok entries)
  (hwords : (Targets.ofWords host.tree host.current project.root request.trailing).files = [])
include hfind hload hwords

/-- If no source is selected, the session ends with exit code one, whatever programs there are. -/
theorem exists_runUnder_of_selects_nothing (schedule : Nat → List Step)
    (interruption : Interruption)
    (hnone : Selection.ofDatabase entries project.root request.includes
      (excludes project request) = []) :
    ∃ output errors, ∀ start, runUnder schedule { host with start } project request interruption =
      { result := .ok 1, tree := host.tree, output, errors } := by
  obtain ⟨output, errors, hsession⟩ := Session.exists_afterNotices_eq request.options.json
    ["Using compile commands: " ++ database.text ++ "\n",
      "No source files found matching the criteria."] { result := .ok 1, tree := host.tree }
  refine ⟨output, errors, fun start => ?_⟩
  rw [runUnder, hfind]
  simp only [hwords, if_true, ofDatabaseUnder, hload, hnone]
  exact hsession

/-- If sources are selected, the session is that of these files, but for notices. -/
theorem exists_runUnder_of_selects (schedule : Nat → List Step) (interruption : Interruption)
    (hsome : Selection.ofDatabase entries project.root request.includes
      (excludes project request) ≠ []) :
    ∃ output errors, runUnder schedule host project request interruption =
      { ofFilesUnder schedule host project
          (Selection.ofDatabase entries project.root request.includes (excludes project request))
          database (optionsFor host project request) interruption with output, errors } := by
  rw [runUnder, hfind]
  simp only [hwords, if_true, ofDatabaseUnder, hload, if_neg hsome]
  exact Session.exists_afterNotices_eq _ (_ :: _) _

end Database

/-- Without files on the command line, an analysis that completes has started the analyzer once on
each of the batches of a cut of the selected sources, in the project root, and nothing else after
the analyzer was asked for its version. No pattern of what is to be left out is in the key of any of
these sources. If none is selected, no program is started and the exit code is one. -/
theorem runUnder_database (schedule : Nat → List Step) (host : Host) (project : Project)
    (request : Request) (interruption : Interruption) {entries : List CompileCommand}
    (hfind : CompileDatabase.find host.tree host.current project request.buildDirectory? =
      .ok database)
    (hload : CompileDatabase.load host.tree host.current database = .ok entries)
    (hwords : (Targets.ofWords host.tree host.current project.root request.trailing).files = []) :
    let session := runUnder schedule host project request interruption
    let selected := Selection.ofDatabase entries project.root request.includes
      (project.settings.filter.excludePatterns ++ request.excludes)
    (selected = [] → session.result = .ok 1 ∧ session.invocations = [] ∧
      session.tree = host.tree ∧
      ∀ start, runUnder schedule { host with start } project request interruption = session) ∧
    ∀ code report, session.outcome? = some (.completed code report) →
      ∃ exe left batches, Tool.find host project.settings.analysis = (.ok exe, left) ∧
        Batch.IsCut project.settings.analysis.usableBatchSize selected batches ∧
        project.settings.analysis.usableBatchSize ≤ 50 ∧
        session.invocations.Perm (batches.map (invocation project (optionsFor host project request)
          exe (plugin? left project request.options) database).arguments) ∧
        (request.options.jobs ≤ 1 → session.invocations = batches.map (invocation project
          (optionsFor host project request) exe (plugin? left project request.options)
            database).arguments) ∧
        session.tree = ((pluginNotices left project (optionsFor host project request) exe
          (plugin? left project request.options)).2.launchEach (some project.root) exe
            session.invocations).tree ∧
        ∀ batch ∈ batches, ∀ file ∈ batch, ∃ key, Path.key? project.root ⟨file⟩ = some key ∧
          ∀ pattern, pattern ∈ project.settings.filter.excludePatterns ∨
            pattern ∈ request.excludes → Text.contains key pattern = false := by
  intro session selected
  constructor
  · intro hnone
    obtain ⟨output, errors, hsession⟩ :=
      exists_runUnder_of_selects_nothing hfind hload hwords schedule interruption hnone
    have hthis : session = { result := .ok 1, tree := host.tree, output, errors } :=
      hsession host.start
    exact ⟨by rw [hthis], by rw [hthis], by rw [hthis], fun start => by rw [hthis, hsession]⟩
  · intro code report hcompleted
    by_cases hselected : selected = []
    · obtain ⟨output, errors, hsession⟩ :=
        exists_runUnder_of_selects_nothing hfind hload hwords schedule interruption hselected
      cases (congrArg Session.outcome? (hsession host.start)).symm.trans hcompleted
    obtain ⟨output, errors, hsession⟩ :=
      exists_runUnder_of_selects hfind hload hwords schedule interruption hselected
    obtain ⟨exe, left, hexe, hperm, hinTurn, htree⟩ := invocations_of_completed
      ((congrArg Session.outcome? hsession).symm.trans hcompleted)
    have hcut := project.settings.analysis.isCut_batches hselected
      (Selection.nodup_ofDatabase _ _ _ _)
    have hinvocations := congrArg Session.invocations hsession
    refine ⟨exe, left, _, hexe, hcut, (clampBatchSize_bounds _).2, ?_, ?_, ?_, ?_⟩
    · exact (List.Perm.of_eq hinvocations).trans hperm
    · exact fun hjobs => hinvocations.trans (hinTurn hjobs)
    · exact (congrArg Session.tree hsession).trans (hinvocations ▸ htree)
    · intro batch hbatch file hfile
      obtain ⟨key, hkey, hexcludes⟩ :=
        Selection.exists_key_of_mem_ofDatabase (hcut.mem hbatch hfile)
      exact ⟨key, hkey, fun pattern hpattern => hexcludes pattern (List.mem_append.2 hpattern)⟩

/-! ## A project with four sources -/

/-- A project with a compile database of four sources, one of which is never analyzed. A batch should
have two files. -/
def smallProject : Project where
  root := ⟨"/p"⟩
  settings :=
    { analysis := { buildDirectory := "b", batchSize := 2 }
      filter := { excludePatterns := ["old/"] } }

/-- The compile database of the project. -/
def smallDatabase : Text :=
  "[\x7b\"directory\":\"/p\",\"file\":\"c.cpp\"\x7d," ++
  "\x7b\"directory\":\"/p\",\"file\":\"a.cpp\"\x7d," ++
  "\x7b\"directory\":\"/p/b\",\"file\":\"/p/old/a.cpp\"\x7d," ++
  "\x7b\"directory\":\"/p/b\",\"file\":\"../b.cpp\"\x7d]"

/-- Its entries. -/
def smallEntries : List CompileCommand :=
  [⟨"/p", "c.cpp", none, none, none⟩, ⟨"/p", "a.cpp", none, none, none⟩,
    ⟨"/p/b", "/p/old/a.cpp", none, none, none⟩, ⟨"/p/b", "../b.cpp", none, none, none⟩]

/-- A host on which every program succeeds and prints what it was called with. -/
def smallHost : Host where
  tree := { entries := [(["p"], .directory), (["p", "b"], .directory),
    (["p", "b", databaseName], .file (.text smallDatabase) false)] }
  current := ["p"]
  override? := none
  start tree _ _ arguments :=
    (some ⟨.exited 0, Utf8.encode (Text.join ['\n'] arguments), []⟩, tree)

/-- The last of two batches comes first. -/
def lastFirst : Nat → List Step := fun _ => [.look 1, .call 1, .look 0, .call 0]

/-- Two workers take two batches in reverse order. Nothing is started if no source is selected. -/
theorem runUnder_database_last_first :
    (runUnder lastFirst smallHost smallProject { options := { jobs := 2 } } .never).invocations =
        ([["-p=/p/b", "/p/c.cpp"], ["-p=/p/b", "/p/a.cpp", "/p/b.cpp"]] : List (List Text)) ∧
      (∃ batches front, Batch.IsCut 2 ["/p/a.cpp", "/p/b.cpp", "/p/c.cpp"] batches ∧
        (runUnder lastFirst smallHost smallProject { options := { jobs := 2 } }
          .never).invocations.Perm (batches.map (front ++ ·))) ∧
      (runUnder lastFirst smallHost smallProject { includes := ["d.cpp"] } .never).result =
        .ok 1 := by
  have hfind : CompileDatabase.find smallHost.tree smallHost.current smallProject none =
      .ok ⟨"/p/b/compile_commands.json"⟩ := by decide +kernel
  have hload : CompileDatabase.load smallHost.tree smallHost.current
      ⟨"/p/b/compile_commands.json"⟩ = .ok smallEntries := by decide +kernel
  have hselected : Selection.ofDatabase smallEntries smallProject.root []
      (smallProject.settings.filter.excludePatterns ++ []) =
        (["/p/a.cpp", "/p/b.cpp", "/p/c.cpp"] : List Text) := by decide +kernel
  have hoptions : (runUnder lastFirst smallHost smallProject { options := { jobs := 2 } }
      .never).outcome? = some (.completed 0 .empty) := by decide +kernel
  obtain ⟨-, hcompleted⟩ := runUnder_database lastFirst smallHost smallProject
    { options := { jobs := 2 } } .never hfind hload rfl
  obtain ⟨exe, left, batches, -, hcut, -, hperm, -, -⟩ := hcompleted 0 .empty hoptions
  obtain ⟨hnothing, -⟩ := runUnder_database lastFirst smallHost smallProject
    { includes := ["d.cpp"] } .never hfind hload rfl
  refine ⟨by decide +kernel, ⟨batches, _, ?_, hperm⟩, (hnothing (by decide +kernel)).1⟩
  rw [← hselected]
  exact hcut

end Analysis

end EngineUpkeep
