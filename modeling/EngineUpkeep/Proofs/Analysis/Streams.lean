import EngineUpkeep.Proofs.Analysis.Sources
import EngineUpkeep.Proofs.Report.Line
import EngineUpkeep.Proofs.Workload.Invariance

/-!
# Reports for programs and for readers

Two sessions of one request, of which one prints its report as JSON, are compared
(`Session.Mirrors`). They end alike and start the analyzer on the same batches. The report for
programs is alone on the output and is one line (`mirrors_runUnder`), and what is a notice for
readers goes to the errors then.

The sessions may have different schedules and a host whose programs change the file tree, as long as
what a program prints depends on what it is called with alone.
-/

namespace EngineUpkeep

/-! ## Programs that are always the same -/

/-- What can be seen of a program depends on the directory in which it is started, its name and its
arguments alone. -/
def Host.Answers (host : Host)
    (answer : Option Path → Text → List Text → Option Execution) : Prop :=
  ∀ tree directory? exe arguments,
    (host.start tree directory? exe arguments).1 = answer directory? exe arguments

namespace Tool

variable {host : Host}

theorem start_probe (host : Host) (exe : Text) (hasTime : Bool) :
    (probe host exe hasTime).2.start = host.start := by
  have hlaunch : (host.launch none exe [versionFlag]).2.start = host.start := rfl
  rw [probe]
  split
  · rfl
  · split
    · next heq => rwa [heq] at hlaunch
    · next heq => rwa [heq] at hlaunch

theorem start_isUsable (host : Host) (settings : AnalysisSection) (exe : Text) :
    (isUsable host settings exe).2.start = host.start := by
  rw [isUsable]
  split
  · rfl
  · exact start_probe host exe _

/-- Looking for the analyzer leaves the programs of a host. -/
theorem start_find (host : Host) (settings : AnalysisSection) :
    (find host settings).2.start = host.start := by
  have husable : (usable? host settings).2.start = host.start := by
    rw [usable?]
    split
    · rfl
    · next exe _ => exact start_isUsable host settings exe
  rw [find]
  generalize usable? host settings = usable at husable ⊢
  obtain ⟨exe | _, left⟩ := usable
  · exact (start_probe left defaultName _).trans husable
  · exact husable

end Tool

theorem Analysis.start_pluginNotices (host : Host) (project : Project) (options : AnalysisOptions)
    (exe : Text) (plugin? : Option Path) :
    (pluginNotices host project options exe plugin?).2.start = host.start := by
  cases plugin? with
  | none => rfl
  | some plugin => exact Tool.start_probe host exe _

namespace Invocation

/-- The analyzer as one that works on the file tree of a host. -/
def onTree (invocation : Invocation) (host : Host) : Analyzer FileTree := fun batch tree =>
  let (execution?, tree) :=
    host.start tree (some invocation.root) invocation.exe (invocation.arguments batch)
  (replyOf execution?, tree)

theorem answers_onTree {host : Host} {answer : Option Path → Text → List Text → Option Execution}
    (hanswer : host.Answers answer) (invocation : Invocation) :
    (invocation.onTree host).Answers fun batch =>
      replyOf (answer (some invocation.root) invocation.exe (invocation.arguments batch)) :=
  fun batch tree => congrArg replyOf (hanswer tree _ _ (invocation.arguments batch))

/-- A run of the analyzer changes nothing of a host but the file tree. -/
theorem runUnder_run (invocation : Invocation) (host : Host) (workload : Workload)
    (interruption : Interruption) (schedule : List Step) (files : List Text) :
    workload.runUnder invocation.run interruption schedule files host =
      (workload.runUnder (invocation.onTree host) interruption schedule files host.tree).mapState
        fun tree => { host with tree } := by
  have hsame : (invocation.onTree host).SameUnder invocation.run fun tree => { host with tree } :=
    fun _ _ => rfl
  exact Workload.runUnder_mapState hsame schedule files host.tree

/-- What comes of a run of the analyzer whose flag is set at the start, and which batches it calls.
-/
theorem runUnder_ofStart {host : Host}
    {answer : Option Path → Text → List Text → Option Execution} (hanswer : host.Answers answer)
    (invocation : Invocation) (workload : Workload) (up : Bool) {schedule : List Step}
    {files : List Text} (hfiles : files ≠ [])
    (hcovers : Pool.Covers (workload.batches files).length schedule) :
    (workload.runUnder invocation.run (.ofStart up) schedule files host).outcome =
        workload.outcomeOf (fun batch => replyOf (answer (some invocation.root) invocation.exe
          (invocation.arguments batch))) (.fromStart up none) files ∧
      (workload.runUnder invocation.run (.ofStart up) schedule files host).calls.Perm
        (if up then [] else workload.batches files) ∧
      (workload.jobs ≤ 1 →
        (workload.runUnder invocation.run (.ofStart up) schedule files host).calls =
          if up then [] else workload.batches files) := by
  rw [runUnder_run]
  have hontree := answers_onTree hanswer invocation
  exact ⟨Workload.outcome_runUnder hontree workload up none hfiles hcovers host.tree,
    Workload.calls_runUnder hontree workload up hfiles hcovers host.tree⟩

end Invocation

/-! ## Two sessions of a request -/

/-- A session with a report for readers tells what a session with a report for programs tells. What
came of the run is the same, and what is a notice on the output of the one is on the errors of the
other. -/
structure Session.Mirrors (inTurn : Prop) (json text : Session) : Prop where
  /-- Both have the same exit code or the same failure. -/
  result_eq : text.result = json.result
  /-- The same came of the run over the files. -/
  outcome?_eq : text.outcome? = json.outcome?
  /-- Both have started the analyzer on the same batches. -/
  invocations_perm : text.invocations.Perm json.invocations
  /-- If there is one worker, they have done so in the same order. -/
  invocations_eq : inTurn → text.invocations = json.invocations
  /-- All that readers get is on the output. -/
  errors_eq : text.errors = []
  /-- A run that completes is reported on one line of the output, with the exit code. Readers get the
  same report after all notices and the progress. -/
  completed : ∀ code report, json.outcome? = some (.completed code report) →
    json.result = .ok code ∧ json.output = (Report.outcomeJson code report).write ++ "\n" ∧
    '\n' ∉ (Report.outcomeJson code report).write ∧
    (Report.outcomeJson code report).record? ["exit_code"] = some [some (.ofInt code)] ∧
    ∃ progress, text.output = json.errors ++ progress ++ report.render
  /-- In any other case nothing is on the output. Readers get the same notices, with the progress in
  front of the last one. -/
  stopped : (∀ code report, json.outcome? ≠ some (.completed code report)) →
    json.output = [] ∧ ∃ notices progress last, json.errors = notices ++ last ∧
      text.output = notices ++ progress ++ last

namespace Session

variable {inTurn : Prop} {json text : Session}

theorem mirrors_failed (inTurn : Prop) (tree tree' : FileTree) (failure : Failure) :
    Mirrors inTurn (failed tree failure) (failed tree' failure) where
  result_eq := rfl
  outcome?_eq := rfl
  invocations_perm := .refl _
  invocations_eq _ := rfl
  errors_eq := rfl
  completed code report h := by cases h
  stopped _ := ⟨rfl, [], [], [], rfl, rfl⟩

theorem mirrors_ended (inTurn : Prop) (tree tree' : FileTree) (notice : Text) (code : Int) :
    Mirrors inTurn (ended tree true notice code) (ended tree' false notice code) where
  result_eq := rfl
  outcome?_eq := rfl
  invocations_perm := .refl _
  invocations_eq _ := rfl
  errors_eq := rfl
  completed code report h := by cases h
  stopped _ := ⟨rfl, [], [], _, rfl, rfl⟩

/-- A notice in front of both sessions is on the errors of the one and on the output of the other. -/
theorem Mirrors.afterNotice (h : Mirrors inTurn json text) (notice : Text) :
    Mirrors inTurn (json.afterNotice true notice) (text.afterNotice false notice) := by
  have hread : (text.afterNotice false notice).output = notice ++ "\n".toList ++ text.output := rfl
  have hnoted : (json.afterNotice true notice).errors = notice ++ "\n".toList ++ json.errors := rfl
  refine ⟨h.result_eq, h.outcome?_eq, h.invocations_perm, h.invocations_eq, h.errors_eq,
    fun code report hcompleted => ?_, fun hstopped => ?_⟩
  · obtain ⟨hresult, houtput, hline, hcode, progress, hprogress⟩ := h.completed code report hcompleted
    refine ⟨hresult, houtput, hline, hcode, progress, ?_⟩
    rw [hread, hnoted, hprogress]
    simp only [List.append_assoc]
  · obtain ⟨houtput, notices, progress, last, herrors, hprogress⟩ := h.stopped hstopped
    refine ⟨houtput, notice ++ "\n".toList ++ notices, progress, last, ?_, ?_⟩
    · rw [hnoted, herrors, List.append_assoc _ notices]
    · rw [hread, hprogress]
      simp only [List.append_assoc]

theorem Mirrors.afterNotices (h : Mirrors inTurn json text) (notices : List Text) :
    Mirrors inTurn (json.afterNotices true notices) (text.afterNotices false notices) := by
  induction notices with
  | nil => exact h
  | cons notice notices ih => exact ih.afterNotice notice

end Session

namespace Analysis

/-- Sessions of runs with the same outcome and the same calls, of which one prints no progress. -/
theorem mirrors_ofRun {inTurn : Prop} (invocation : Invocation) {json text : Run Host}
    (houtcome : text.outcome = json.outcome) (hperm : text.calls.Perm json.calls)
    (hcalls : inTurn → text.calls = json.calls) (hsilent : json.printed = []) :
    Session.Mirrors inTurn (ofRun true invocation json) (ofRun false invocation text) := by
  obtain ⟨outcome, calls, printed, left⟩ := json
  obtain ⟨outcome', calls', printed', left'⟩ := text
  obtain rfl : outcome' = outcome := houtcome
  obtain rfl : printed = [] := hsilent
  have hinvocations : inTurn → calls'.map invocation.arguments = calls.map invocation.arguments :=
    fun hinTurn => congrArg (List.map _) (hcalls hinTurn)
  cases outcome' with
  | noFiles =>
    exact ⟨rfl, rfl, hperm.map _, hinvocations, rfl, fun _ _ h => (by cases h),
      fun _ => ⟨rfl, [], printed', _, rfl, rfl⟩⟩
  | interrupted =>
    exact ⟨rfl, rfl, hperm.map _, hinvocations, rfl, fun _ _ h => (by cases h),
      fun _ => ⟨rfl, [], printed', _, rfl, rfl⟩⟩
  | completed code report =>
    refine ⟨rfl, rfl, hperm.map _, hinvocations, rfl, fun code' report' h => ?_,
      fun h => absurd rfl (h code report)⟩
    cases h
    exact ⟨rfl, rfl, Report.notMem_write_outcomeJson code report,
      Report.record?_outcomeJson code report, printed', rfl⟩

section Mirrors

variable {host : Host} {answer : Option Path → Text → List Text → Option Execution}
  (hanswer : host.Answers answer) {schedule schedule' : Nat → List Step}
  (hcovers : ∀ count, Pool.Covers count (schedule count))
  (hcovers' : ∀ count, Pool.Covers count (schedule' count))
include hanswer hcovers hcovers'

/-- Analyses of the same files. -/
theorem mirrors_ofFilesUnder (project : Project) (files : List Text) (database : Path)
    (options : AnalysisOptions) (up : Bool) :
    Session.Mirrors (options.jobs ≤ 1)
      (ofFilesUnder schedule host project files database { options with json := true }
        (.ofStart up))
      (ofFilesUnder schedule' host project files database { options with json := false }
        (.ofStart up)) := by
  by_cases hfiles : files = []
  · rw [ofFilesUnder, ofFilesUnder, if_pos hfiles, if_pos hfiles]
    exact Session.mirrors_ended _ _ _ _ _
  rcases hfind : Tool.find host project.settings.analysis with ⟨failure | exe, left⟩
  · rw [ofFilesUnder, ofFilesUnder, if_neg hfiles, if_neg hfiles, hfind]
    exact Session.mirrors_failed _ _ _ _
  rw [ofFilesUnder_of_find hfiles hfind, ofFilesUnder_of_find hfiles hfind]
  have hleft : (pluginNotices left project options exe (plugin? left project options)).2.Answers
      answer := by
    have hstart := Tool.start_find host project.settings.analysis
    rw [hfind] at hstart
    rw [Host.Answers, start_pluginNotices, hstart]
    exact hanswer
  obtain ⟨houtcome, hperm, hcalls⟩ := Invocation.runUnder_ofStart hleft
    (invocation project options exe (plugin? left project options) database)
    (workload project { options with json := true }) up hfiles (hcovers _)
  obtain ⟨houtcome', hperm', hcalls'⟩ := Invocation.runUnder_ofStart hleft
    (invocation project options exe (plugin? left project options) database)
    (workload project { options with json := false }) up hfiles (hcovers' _)
  refine Session.Mirrors.afterNotices (mirrors_ofRun _ ?_ ?_ (fun hjobs => ?_) ?_) _
  · exact houtcome'.trans houtcome.symm
  · exact hperm'.trans hperm.symm
  · exact (hcalls' hjobs).trans (hcalls hjobs).symm
  · exact Workload.printed_runUnder rfl _ _ _

/-- Analyses of the sources of a compile database. -/
theorem mirrors_ofDatabaseUnder (project : Project) (request : Request) (database : Path)
    (options : AnalysisOptions) (up : Bool) :
    Session.Mirrors (options.jobs ≤ 1)
      (ofDatabaseUnder schedule host project request database { options with json := true }
        (.ofStart up))
      (ofDatabaseUnder schedule' host project request database { options with json := false }
        (.ofStart up)) := by
  rw [ofDatabaseUnder, ofDatabaseUnder]
  rcases CompileDatabase.load host.tree host.current database with failure | entries
  · exact Session.mirrors_failed _ _ _ _
  dsimp only
  split
  · exact Session.mirrors_ended _ _ _ _ _
  · exact (mirrors_ofFilesUnder hanswer hcovers hcovers' project _ database options
      up).afterNotices _

end Mirrors

/-- Whatever is asked for, a session with a report for programs and one with a report for readers
tell the same, if the flag is set at the start and programs answer by what they are called with. -/
theorem mirrors_runUnder {host : Host}
    {answer : Option Path → Text → List Text → Option Execution} (hanswer : host.Answers answer)
    {schedule schedule' : Nat → List Step} (hcovers : ∀ count, Pool.Covers count (schedule count))
    (hcovers' : ∀ count, Pool.Covers count (schedule' count)) (project : Project)
    (request : Request) (up : Bool) :
    Session.Mirrors (request.options.jobs ≤ 1)
      (runUnder schedule host project
        { request with options := { request.options with json := true } } (.ofStart up))
      (runUnder schedule' host project
        { request with options := { request.options with json := false } } (.ofStart up)) := by
  rw [runUnder, runUnder]
  dsimp only
  rcases CompileDatabase.find host.tree host.current project request.buildDirectory? with
    failure | database
  · exact Session.mirrors_failed _ _ _ _
  refine Session.Mirrors.afterNotice ?_ _
  split
  · exact mirrors_ofDatabaseUnder hanswer hcovers hcovers' project request database
      (optionsFor host project request) up
  · exact (mirrors_ofFilesUnder hanswer hcovers hcovers' project _ database
      (optionsFor host project request) up).afterNotices _

/-! ## Two schedules on one host -/

/-- A host on which the analyzer finds something in every file. -/
def warningHost : Host :=
  { smallHost with
    start := fun tree _ _ arguments =>
      let warnings : Text := arguments.flatMap fun word => word ++ ":1: warning: w\n"
      (some ⟨.exited (if arguments = [Tool.versionFlag] then 0 else 1), Utf8.encode warnings, []⟩,
        tree) }

/-- With two workers, a report for programs is one line, and readers get the same report after what
is on the errors. -/
theorem mirrors_runUnder_two_workers :
    (runUnder Pool.inOrder warningHost smallProject { options := { jobs := 2, json := true } }
      (.ofStart false)).result = .ok 1 ∧
    (runUnder Pool.looksFirst warningHost smallProject { options := { jobs := 2 } }
      (.ofStart false)).result = .ok 1 ∧
    ∃ progress report,
      (runUnder Pool.inOrder warningHost smallProject { options := { jobs := 2, json := true } }
        (.ofStart false)).output = (Report.outcomeJson 1 report).write ++ "\n" ∧
      '\n' ∉ (Report.outcomeJson 1 report).write ∧
      (runUnder Pool.looksFirst warningHost smallProject { options := { jobs := 2 } }
        (.ofStart false)).output =
        (runUnder Pool.inOrder warningHost smallProject { options := { jobs := 2, json := true } }
          (.ofStart false)).errors ++ progress ++ report.render := by
  have hanswer : warningHost.Answers fun directory? exe arguments =>
      (warningHost.start .empty directory? exe arguments).1 := fun _ _ _ _ => rfl
  have hmirrors := mirrors_runUnder hanswer Pool.covers_inOrder Pool.covers_looksFirst smallProject
    { options := { jobs := 2 } } false
  have hresult : (runUnder Pool.inOrder warningHost smallProject
      { options := { jobs := 2, json := true } } (.ofStart false)).result = .ok 1 := by
    decide +kernel
  have hloud : (runUnder Pool.inOrder warningHost smallProject
      { options := { jobs := 2, json := true } } (.ofStart false)).output ≠ [] := by
    decide +kernel
  -- Something is on the output, so the run has not stopped.
  obtain ⟨code, report, hcompleted⟩ : ∃ code report, (runUnder Pool.inOrder warningHost smallProject
      { options := { jobs := 2, json := true } } (.ofStart false)).outcome? =
        some (.completed code report) :=
    Classical.byContradiction fun hnone =>
      hloud (hmirrors.stopped fun code report h => hnone ⟨code, report, h⟩).1
  obtain ⟨hcode, houtput, hline, -, progress, hprogress⟩ := hmirrors.completed code report hcompleted
  obtain rfl : code = 1 := Except.ok.inj (hcode.symm.trans hresult)
  exact ⟨hresult, hmirrors.result_eq.trans hresult, progress, report, houtput, hline, hprogress⟩

end Analysis

end EngineUpkeep
