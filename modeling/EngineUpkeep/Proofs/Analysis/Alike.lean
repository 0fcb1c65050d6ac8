import EngineUpkeep.Proofs.Analysis.Streams
import EngineUpkeep.Proofs.FileTree.Content
import EngineUpkeep.Proofs.Workload.Uninterrupted

/-!
# Analyses on hosts that are alike

Two hosts are alike (`Host.Alike`) if they differ at most in what one file holds, and their programs
do not care for it. The analyzer is found, and the plugin is, without reading that file, so analyses
of the same files agree on such hosts if they are not interrupted (`agrees_ofFilesUnder`).
-/

namespace EngineUpkeep

/-! ## Probes -/

/-- What a program that was started answers. -/
def Tool.answerOf? : Option Execution → Option Text
  | some ⟨.exited 0, output, _⟩ =>
    if output.length ≤ pipeCapacity then some (Text.trim (Utf8.decodeLenient output)) else none
  | _ => none

/-- A probe starts the program, if it has time, and takes its answer. -/
theorem Tool.probe_eq (host : Host) (exe : Text) (hasTime : Bool) :
    probe host exe hasTime =
      if hasTime then
        (answerOf? (host.launch none exe [versionFlag]).1, (host.launch none exe [versionFlag]).2)
      else (none, host) := by
  rw [probe]
  generalize host.launch none exe [versionFlag] = launched
  obtain ⟨execution?, left⟩ := launched
  cases hasTime with
  | false => rfl
  | true =>
    -- Only an exit with zero has an answer.
    rcases execution? with _ | ⟨(_ | _) | _ | _, output, errors⟩ <;> rfl

/-! ## Hosts -/

/-- Trees that differ at most in what the file at a location holds still do so after a program was
started on both. -/
def Host.IsBlindTo (location : Location) (host : Host) : Prop :=
  ∀ tree tree' directory? exe arguments, FileTree.SameBut location tree tree' →
    FileTree.SameBut location (host.start tree directory? exe arguments).2
      (host.start tree' directory? exe arguments).2

/-- Hosts with the same programs that differ at most in what the file at a location holds. What can
be seen of the programs depends on what they are started with alone. -/
structure Host.Alike (location : Location)
    (answer : Option Path → Text → List Text → Option Execution) (host host' : Host) : Prop where
  /-- Both have the same current directory. -/
  current_eq : host'.current = host.current
  /-- Both environments name the same analyzer. -/
  override?_eq : host'.override? = host.override?
  /-- Both have the same programs. -/
  start_eq : host'.start = host.start
  /-- The programs answer by what they are started with. -/
  answers : host.Answers answer
  /-- The programs do not care for the file. -/
  isBlind : host.IsBlindTo location
  /-- All else is the same in both trees. -/
  sameBut : FileTree.SameBut location host.tree host'.tree

/-- Two computations have the same result and leave hosts that are alike. -/
def Host.AlikeAfter {α : Type} (location : Location)
    (answer : Option Path → Text → List Text → Option Execution) (first second : α × Host) : Prop :=
  second.1 = first.1 ∧ Host.Alike location answer first.2 second.2

namespace Host.Alike

variable {location : Location} {answer : Option Path → Text → List Text → Option Execution}
  {host host' : Host} (h : Alike location answer host host')
include h

theorem answers_right : host'.Answers answer := by
  rw [Answers, h.start_eq]
  exact h.answers

theorem launch (directory? : Option Path) (exe : Text) (arguments : List Text) :
    AlikeAfter location answer (host.launch directory? exe arguments)
      (host'.launch directory? exe arguments) := by
  refine ⟨?_, h.current_eq, h.override?_eq, h.start_eq, h.answers, h.isBlind, ?_⟩
  -- What is seen depends on the arguments alone, and what is left differs in the one file alone.
  · exact (h.answers_right _ _ _ _).trans (h.answers _ _ _ _).symm
  · have hleft := h.isBlind host.tree host'.tree directory? exe arguments h.sameBut
    rw [← h.start_eq] at hleft
    rw [Host.launch, Host.launch, ← h.start_eq]
    exact hleft

theorem probe (exe : Text) (hasTime : Bool) :
    AlikeAfter location answer (Tool.probe host exe hasTime) (Tool.probe host' exe hasTime) := by
  obtain ⟨hexecution, hleft⟩ := h.launch none exe [Tool.versionFlag]
  rw [Tool.probe_eq, Tool.probe_eq, hexecution]
  cases hasTime with
  | false => exact ⟨rfl, h⟩
  | true => exact ⟨rfl, hleft⟩

theorem named?_eq (settings : AnalysisSection) :
    Tool.named? host' settings = Tool.named? host settings := by
  rw [Tool.named?, Tool.named?, h.override?_eq]

theorem isUsable (settings : AnalysisSection) (exe : Text) :
    AlikeAfter location answer (Tool.isUsable host settings exe)
      (Tool.isUsable host' settings exe) := by
  rw [Tool.isUsable, Tool.isUsable, h.current_eq, h.sameBut.sameShape.isFile_eq]
  split
  · exact ⟨rfl, h⟩
  · obtain ⟨hanswer, hleft⟩ := h.probe exe (0 < settings.probeSeconds)
    exact ⟨congrArg Option.isSome hanswer, hleft⟩

theorem usable? (settings : AnalysisSection) :
    AlikeAfter location answer (Tool.usable? host settings) (Tool.usable? host' settings) := by
  rw [Tool.usable?, Tool.usable?, h.named?_eq]
  split
  · exact ⟨rfl, h⟩
  · next exe _ =>
    obtain ⟨hanswer, hleft⟩ := h.isUsable settings exe
    exact ⟨by dsimp only; rw [hanswer], hleft⟩

/-- The search for the analyzer comes to the same. -/
theorem find (settings : AnalysisSection) :
    AlikeAfter location answer (Tool.find host settings) (Tool.find host' settings) := by
  obtain ⟨husable, hleft⟩ := h.usable? settings
  rw [Tool.find, Tool.find]
  -- Only what the first attempt has found and left is used from here on.
  generalize Tool.usable? host settings = first at husable hleft ⊢
  generalize Tool.usable? host' settings = second at husable hleft ⊢
  obtain ⟨exe?, left⟩ := first
  obtain ⟨exe?', left'⟩ := second
  obtain rfl : exe?' = exe? := husable
  cases exe?' with
  | some exe => exact ⟨rfl, hleft⟩
  | none =>
    obtain ⟨hanswer, hlast⟩ := hleft.probe Tool.defaultName (0 < settings.probeSeconds)
    exact ⟨by dsimp only; rw [Tool.probeFor, Tool.probeFor, hanswer], hlast⟩

/-- The same plugin is found. -/
theorem plugin?_eq (project : Project) (options : AnalysisOptions) :
    Analysis.plugin? host' project options = Analysis.plugin? host project options := by
  rw [Analysis.plugin?, Analysis.plugin?, Plugin.find?, Plugin.find?, h.current_eq]
  simp only [h.sameBut.sameShape.pathExists_eq]

/-- The same is told about the plugin. -/
theorem pluginNotices (project : Project) (options : AnalysisOptions) (exe : Text)
    (plugin? : Option Path) :
    AlikeAfter location answer (Analysis.pluginNotices host project options exe plugin?)
      (Analysis.pluginNotices host' project options exe plugin?) := by
  cases plugin? with
  | none => exact ⟨rfl, h⟩
  | some plugin =>
    obtain ⟨hanswer, hleft⟩ := h.probe exe (0 < project.settings.analysis.probeSeconds)
    refine ⟨?_, hleft⟩
    rw [Analysis.pluginNotices, Analysis.pluginNotices, Tool.probeFor, Tool.probeFor]
    dsimp only
    rw [hanswer]

end Host.Alike

/-- What a run of the analyzer comes to if it is not interrupted. -/
theorem Invocation.run_of_not_interrupted {host : Host}
    {answer : Option Path → Text → List Text → Option Execution} (hanswer : host.Answers answer)
    (invocation : Invocation) (workload : Workload) {interruption : Interruption}
    {schedule : List Step} {files : List Text}
    (hcovers : Pool.Covers (workload.batches files).length schedule)
    (h : (workload.runUnder invocation.run interruption schedule files host).outcome ≠
      .interrupted) :
    let plain := workload.plainRun (fun batch => Invocation.replyOf
      (answer (some invocation.root) invocation.exe (invocation.arguments batch))) files
    (workload.runUnder invocation.run interruption schedule files host).outcome = plain.outcome ∧
      (workload.runUnder invocation.run interruption schedule files host).printed =
        plain.printed ∧
      (workload.runUnder invocation.run interruption schedule files host).calls.Perm
        plain.calls ∧
      (workload.jobs ≤ 1 →
        (workload.runUnder invocation.run interruption schedule files host).calls =
          plain.calls) := by
  rw [invocation.runUnder_run] at h ⊢
  exact workload.run_of_not_interrupted (invocation.answers_onTree hanswer) hcovers h

/-! ## Sessions -/

theorem Session.outcome?_afterNotices (json : Bool) (notices : List Text) (session : Session) :
    (session.afterNotices json notices).outcome? = session.outcome? := by
  obtain ⟨output, errors, hsession⟩ := session.exists_afterNotices_eq json notices
  rw [hsession]

/-- Sessions that come to the same, with the same texts on both streams. They start the analyzer on
the same batches, and in the same order if there is one worker. -/
structure Session.Agrees (inTurn : Prop) (session session' : Session) : Prop where
  /-- Both have the same exit code or the same failure. -/
  result_eq : session'.result = session.result
  /-- Both print the same to the output. -/
  output_eq : session'.output = session.output
  /-- Both print the same to the errors. -/
  errors_eq : session'.errors = session.errors
  /-- The same came of the run over the files. -/
  outcome?_eq : session'.outcome? = session.outcome?
  /-- Both have started the analyzer on the same batches. -/
  invocations_perm : session'.invocations.Perm session.invocations
  /-- If there is one worker, they have done so in the same order. -/
  invocations_eq : inTurn → session'.invocations = session.invocations

namespace Session.Agrees

variable {inTurn : Prop} {session session' : Session}

/-- The tree that is left makes no difference. -/
theorem of_tree (inTurn : Prop) (session : Session) (tree : FileTree) :
    Agrees inTurn session { session with tree } :=
  ⟨rfl, rfl, rfl, rfl, .refl _, fun _ => rfl⟩

theorem afterNotice (h : Agrees inTurn session session') (json : Bool) (notice : Text) :
    Agrees inTurn (session.afterNotice json notice) (session'.afterNotice json notice) := by
  cases json with
  | false =>
    exact ⟨h.result_eq, congrArg (_ ++ ·) h.output_eq, h.errors_eq, h.outcome?_eq,
      h.invocations_perm, h.invocations_eq⟩
  | true =>
    exact ⟨h.result_eq, h.output_eq, congrArg (_ ++ ·) h.errors_eq, h.outcome?_eq,
      h.invocations_perm, h.invocations_eq⟩

theorem afterNotices (h : Agrees inTurn session session') (json : Bool) (notices : List Text) :
    Agrees inTurn (session.afterNotices json notices) (session'.afterNotices json notices) := by
  induction notices with
  | nil => exact h
  | cons notice notices ih => exact ih.afterNotice json notice

end Session.Agrees

namespace Analysis

/-- Sessions of runs with the same outcome, the same progress and the same calls. -/
theorem agrees_ofRun {inTurn : Prop} (json : Bool) (invocation : Invocation) {run run' : Run Host}
    (houtcome : run'.outcome = run.outcome) (hprinted : run'.printed = run.printed)
    (hperm : run'.calls.Perm run.calls) (hcalls : inTurn → run'.calls = run.calls) :
    Session.Agrees inTurn (ofRun json invocation run) (ofRun json invocation run') := by
  obtain ⟨outcome, calls, printed, left⟩ := run
  obtain ⟨outcome', calls', printed', left'⟩ := run'
  obtain rfl : outcome' = outcome := houtcome
  obtain rfl : printed' = printed := hprinted
  have hinvocations : inTurn → calls'.map invocation.arguments = calls.map invocation.arguments :=
    fun hinTurn => congrArg (List.map _) (hcalls hinTurn)
  cases outcome' <;> cases json <;>
    exact ⟨rfl, rfl, rfl, rfl, hperm.map _, hinvocations⟩

section Files

variable {location : Location} {answer : Option Path → Text → List Text → Option Execution}
  {host host' : Host} (h : Host.Alike location answer host host')
  {schedule schedule' : Nat → List Step}
  (hcovers : ∀ count, Pool.Covers count (schedule count))
  (hcovers' : ∀ count, Pool.Covers count (schedule' count))
include h hcovers hcovers'

/-- Analyses of the same files on hosts that are alike agree if they are not interrupted. -/
theorem agrees_ofFilesUnder (project : Project) (files : List Text) (database : Path)
    (options : AnalysisOptions) {interruption interruption' : Interruption}
    (hgo : (ofFilesUnder schedule host project files database options interruption).outcome? ≠
      some .interrupted)
    (hgo' : (ofFilesUnder schedule' host' project files database options interruption').outcome? ≠
      some .interrupted) :
    Session.Agrees (options.jobs ≤ 1)
      (ofFilesUnder schedule host project files database options interruption)
      (ofFilesUnder schedule' host' project files database options interruption') := by
  by_cases hfiles : files = []
  · rw [ofFilesUnder, ofFilesUnder, if_pos hfiles, if_pos hfiles]
    exact (Session.Agrees.of_tree _ { result := .ok 0, tree := host.tree } _).afterNotice _ _
  -- The hosts stay alike through the search for the analyzer and through the probes for the plugin.
  obtain ⟨hexe, hleft⟩ := h.find project.settings.analysis
  rcases hfind : Tool.find host project.settings.analysis with ⟨failure | exe, left⟩ <;>
    rcases hfind' : Tool.find host' project.settings.analysis with ⟨exe', left'⟩ <;>
    rw [hfind, hfind'] at hexe hleft <;> obtain rfl := hexe
  · rw [ofFilesUnder, ofFilesUnder, if_neg hfiles, if_neg hfiles, hfind, hfind']
    exact Session.Agrees.of_tree _ (.failed left.tree failure) _
  rw [ofFilesUnder_of_find hfiles hfind] at hgo ⊢
  rw [ofFilesUnder_of_find hfiles hfind', hleft.plugin?_eq] at hgo' ⊢
  obtain ⟨hnotices, hlast⟩ := hleft.pluginNotices project options exe (plugin? left project options)
  rw [hnotices] at hgo' ⊢
  rw [Session.outcome?_afterNotices] at hgo hgo'
  refine Session.Agrees.afterNotices ?_ _ _
  -- Neither run is interrupted, so both are like the plain run with the same answers.
  obtain ⟨houtcome, hprinted, hperm, hcalls⟩ := Invocation.run_of_not_interrupted hlast.answers
    (invocation project options exe (plugin? left project options) database)
    (workload project options) (hcovers _) fun heq => hgo (congrArg some heq)
  obtain ⟨houtcome', hprinted', hperm', hcalls'⟩ := Invocation.run_of_not_interrupted
    hlast.answers_right (invocation project options exe (plugin? left project options) database)
    (workload project options) (hcovers' _) fun heq => hgo' (congrArg some heq)
  exact agrees_ofRun _ _ (houtcome'.trans houtcome.symm) (hprinted'.trans hprinted.symm)
    (hperm'.trans hperm.symm) fun hjobs => (hcalls' hjobs).trans (hcalls hjobs).symm

end Files

end Analysis

end EngineUpkeep
