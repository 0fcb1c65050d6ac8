import EngineUpkeep.Proofs.Analysis.Alike
import EngineUpkeep.Proofs.Text.Search
import EngineUpkeep.Proofs.Workload.Account

/-!
# The arguments of the analyzer

An analysis of files starts the analyzer on a batch with the same arguments in front of the files of
the batch each time (`Analysis.arguments_ofFilesUnder`): the directory of the compile database, the
wish to fix, the plugin, and the arguments that are handed to the analyzer.

The plugin is left out if these load one already. That is looked for in one text, in which spaces
are between the arguments, but no space is in what is looked for, so it is found in one of the
arguments or not at all (`Plugin.isLoaded_iff`).

That nothing else is started is said by a host on which nothing else can be started
(`Host.startingWith`): the analysis comes to the same on it.
-/

namespace EngineUpkeep

/-! ## Loading a plugin -/

namespace Plugin

/-- Arguments load a plugin if one of them has the flag in it. -/
theorem isLoaded_iff {arguments : List Text} :
    isLoaded arguments = true ↔ ∃ argument ∈ arguments, loadFlag <:+: argument := by
  rw [isLoaded, Text.contains_join (by decide) (by decide), List.any_eq_true]
  simp only [Text.contains_iff]

/-- Either the arguments load a plugin already, or they do so with what comes in front of them. -/
theorem isLoaded_addTo (plugin : Path) (arguments : List Text) :
    isLoaded (addTo plugin arguments) = true := by
  unfold addTo
  split
  · assumption
  · exact isLoaded_iff.2 ⟨loadFlag, List.mem_cons_self, List.infix_refl loadFlag⟩

/-- No second plugin is added. -/
theorem addTo_addTo (plugin other : Path) (arguments : List Text) :
    addTo other (addTo plugin arguments) = addTo plugin arguments := by
  conv_lhs => rw [addTo, if_pos (isLoaded_addTo plugin arguments)]

end Plugin

/-! ## Hosts that start programs with certain arguments only -/

/-- The host on which a program can be asked for its version, and else is started only with
arguments that begin with the given ones. -/
def Host.startingWith (front : List Text) (host : Host) : Host :=
  { host with
    start := fun tree directory? exe arguments =>
      if arguments = [Tool.versionFlag] ∨ front <+: arguments then
        host.start tree directory? exe arguments
      else (none, tree) }

section StartingWith

variable (front : List Text) (host : Host)

theorem Host.launch_startingWith {arguments : List Text}
    (h : arguments = [Tool.versionFlag] ∨ front <+: arguments) (directory? : Option Path)
    (exe : Text) :
    (host.startingWith front).launch directory? exe arguments =
      ((host.launch directory? exe arguments).1,
        (host.launch directory? exe arguments).2.startingWith front) := by
  have hstart : (host.startingWith front).start host.tree directory? exe arguments =
      host.start host.tree directory? exe arguments := if_pos h
  unfold launch
  rw [show (host.startingWith front).tree = host.tree from rfl, hstart]
  rfl

theorem Tool.probe_startingWith (exe : Text) (hasTime : Bool) :
    probe (host.startingWith front) exe hasTime =
      ((probe host exe hasTime).1, (probe host exe hasTime).2.startingWith front) := by
  rw [probe_eq, probe_eq, host.launch_startingWith front (.inl rfl)]
  cases hasTime <;> rfl

theorem Tool.isUsable_startingWith (settings : AnalysisSection) (exe : Text) :
    isUsable (host.startingWith front) settings exe =
      ((isUsable host settings exe).1, (isUsable host settings exe).2.startingWith front) := by
  have hfile : (host.startingWith front).tree.isFile (host.startingWith front).current ⟨exe⟩ =
      host.tree.isFile host.current ⟨exe⟩ := rfl
  rw [isUsable, isUsable, hfile, probeFor, probe_startingWith]
  split <;> rfl

theorem Tool.usable?_startingWith (settings : AnalysisSection) :
    usable? (host.startingWith front) settings =
      ((usable? host settings).1, (usable? host settings).2.startingWith front) := by
  have hnamed : named? (host.startingWith front) settings = named? host settings := rfl
  rw [usable?, usable?, hnamed]
  split
  · rfl
  · rw [isUsable_startingWith]

theorem Tool.find_startingWith (settings : AnalysisSection) :
    find (host.startingWith front) settings =
      ((find host settings).1, (find host settings).2.startingWith front) := by
  rw [find, find, usable?_startingWith]
  generalize usable? host settings = usable
  obtain ⟨exe | _, left⟩ := usable
  · dsimp only
    rw [probeFor, probe_startingWith]
    rfl
  · rfl

theorem Analysis.pluginNotices_startingWith (project : Project) (options : AnalysisOptions)
    (exe : Text) (plugin? : Option Path) :
    pluginNotices (host.startingWith front) project options exe plugin? =
      ((pluginNotices host project options exe plugin?).1,
        (pluginNotices host project options exe plugin?).2.startingWith front) := by
  cases plugin? with
  | none => rfl
  | some plugin =>
    rw [pluginNotices, pluginNotices, Tool.probeFor, Tool.probe_startingWith]
    rfl

variable {front}

/-- Each start of the analyzer on a batch is possible. -/
theorem Invocation.sameUnder_startingWith {invocation : Invocation}
    (h : ∀ batch, front <+: invocation.arguments batch) :
    Analyzer.SameUnder invocation.run invocation.run (Host.startingWith front) := by
  intro batch host
  rw [run, run, host.launch_startingWith front (.inr (h batch))]

end StartingWith

namespace Analysis

/-! ## The arguments in front of the files -/

/-- The arguments that load a plugin, unless others load one already. -/
def loads (plugin? : Option Path) (others : List Text) : List Text :=
  match plugin? with
  | some plugin => if Plugin.isLoaded others then [] else [Plugin.loadFlag, plugin.text]
  | none => []

/-- Whatever is handed to the analyzer stands behind these arguments. -/
theorem extraArguments_eq (plugin? : Option Path) (options : AnalysisOptions) :
    extraArguments plugin? options =
      loads plugin? options.extraArguments ++ options.extraArguments := by
  cases plugin? with
  | none => rfl
  | some plugin =>
    rw [extraArguments, loads, Plugin.addTo]
    split <;> rfl

/-- A plugin is loaded if this is wanted, one of the candidates is there, and no argument loads one
already. -/
theorem loads_plugin?_eq (host : Host) (project : Project) (options : AnalysisOptions) :
    loads (plugin? host project options) options.extraArguments =
      if options.usesPlugin ∧ ∀ argument ∈ options.extraArguments,
          ¬ Plugin.loadFlag <:+: argument then
        (Plugin.find? host.tree host.current project).elim [] fun plugin =>
          [Plugin.loadFlag, plugin.text]
      else [] := by
  have hfree : (∀ argument ∈ options.extraArguments, ¬ Plugin.loadFlag <:+: argument) ↔
      ¬ Plugin.isLoaded options.extraArguments = true := by
    simp only [Plugin.isLoaded_iff, not_exists, not_and]
  unfold loads plugin?
  by_cases hwanted : options.usesPlugin = true
  · rw [if_pos hwanted]
    by_cases hloaded : Plugin.isLoaded options.extraArguments = true
    · rw [if_neg fun hboth => hfree.1 hboth.2 hloaded]
      simp only [if_pos hloaded]
      split <;> rfl
    · rw [if_pos ⟨hwanted, hfree.2 hloaded⟩]
      simp only [if_neg hloaded]
      cases Plugin.find? host.tree host.current project <;> rfl
  · rw [if_neg hwanted, if_neg fun hboth => hwanted hboth.1]

/-- The arguments of the analyzer in front of the files of a batch. -/
def frontArguments (project : Project) (options : AnalysisOptions) (plugin? : Option Path)
    (database : Path) : List Text :=
  ("-p=" ++ (database.parent?.getD project.root).text) ::
    (if options.fix then ["--fix"] else []) ++ loads plugin? options.extraArguments ++
      options.extraArguments

theorem arguments_invocation (project : Project) (options : AnalysisOptions) (exe : Text)
    (plugin? : Option Path) (database : Path) (batch : Batch) :
    (invocation project options exe plugin? database).arguments batch =
      frontArguments project options plugin? database ++ batch := by
  have hextra : (invocation project options exe plugin? database).extraArguments =
      loads plugin? options.extraArguments ++ options.extraArguments :=
    extraArguments_eq plugin? options
  unfold Invocation.arguments frontArguments
  rw [hextra, ← List.append_assoc]
  rfl

/-- No starts are needed but probes and those on batches. -/
theorem ofFilesUnder_startingWith (schedule : Nat → List Step) (host : Host) (project : Project)
    (files : List Text) (database : Path) (options : AnalysisOptions)
    (interruption : Interruption) {front : List Text}
    (hfront : front = frontArguments project options
      (plugin? (Tool.find host project.settings.analysis).2 project options) database) :
    ofFilesUnder schedule (host.startingWith front) project files database options interruption =
      ofFilesUnder schedule host project files database options interruption := by
  by_cases hfiles : files = []
  · rw [ofFilesUnder, ofFilesUnder, if_pos hfiles, if_pos hfiles]
    rfl
  -- The probes come to the same, so that the same analyzer and the same plugin are found.
  have hstarting := Tool.find_startingWith front host project.settings.analysis
  rcases hfind : Tool.find host project.settings.analysis with ⟨failure | exe, left⟩
  · rw [hfind] at hstarting
    rw [ofFilesUnder, ofFilesUnder, if_neg hfiles, if_neg hfiles, hfind, hstarting]
    rfl
  · rw [hfind] at hfront hstarting
    have hplugin : plugin? (left.startingWith front) project options =
        plugin? left project options := rfl
    -- What it is started with begins with the arguments that this plugin leads to.
    have hsame : Analyzer.SameUnder
        (invocation project options exe (plugin? left project options) database).run
        (invocation project options exe (plugin? left project options) database).run
        (Host.startingWith front) :=
      Invocation.sameUnder_startingWith fun batch => by
        rw [arguments_invocation, hfront]
        exact List.prefix_append _ _
    rw [ofFilesUnder_of_find hfiles hfind, ofFilesUnder_of_find hfiles hstarting, hplugin,
      pluginNotices_startingWith, Workload.runUnder_mapState hsame]
    rfl

/-- The analyzer is started on a batch with the directory of the compile database, then the wish to
fix, then the first candidate for a plugin that is there, if it is wanted and no argument loads one,
then the arguments as they are, and then the files. Each of these starts is made once on the host,
in the project root and in the order in which the session tells them. Nothing else is started, but
programs that are asked for their version. To look for the flag in all arguments at once is to look
for it in each of them, and a second plugin is never added. -/
theorem arguments_ofFilesUnder (schedule : Nat → List Step) (host : Host) (project : Project)
    (files : List Text) (database : Path) (options : AnalysisOptions)
    (interruption : Interruption) :
    let session := ofFilesUnder schedule host project files database options interruption
    let batches := (workload project options).batches files
    let left := (Tool.find host project.settings.analysis).2
    let candidates := project.settings.plugin.candidates.map fun candidate =>
      project.root.join ⟨candidate⟩
    let plugin? := candidates.find? fun path => left.tree.pathExists left.current path
    let flag : Text := "-load"
    let load : List Text :=
      if options.usesPlugin ∧ ∀ argument ∈ options.extraArguments, ¬ flag <:+: argument then
        plugin?.elim [] fun plugin => [flag, plugin.text]
      else []
    let fix : List Text := if options.fix then ["--fix"] else []
    let front : List Text :=
      ("-p=" ++ (database.parent?.getD project.root).text) :: fix ++ load ++ options.extraArguments
    (∃ calls ⊆ batches, session.invocations = calls.map (front ++ ·) ∧
      ∀ code report, session.outcome? = some (.completed code report) → calls.Perm batches) ∧
    (session.outcome? = none ∧ session.invocations = [] ∨
      StartsEach host project options session) ∧
    ofFilesUnder schedule (host.startingWith front) project files database options interruption =
      session ∧
    (∀ arguments, Text.contains (Text.join [' '] arguments) flag =
      arguments.any fun argument => Text.contains argument flag) ∧
    ∀ plugin other arguments,
      Plugin.addTo other (Plugin.addTo plugin arguments) = Plugin.addTo plugin arguments := by
  intro session batches left candidates plugin? flag load fix front
  have hfront : front =
      frontArguments project options (Analysis.plugin? left project options) database := by
    unfold frontArguments
    rw [loads_plugin?_eq]
    rfl
  rw [← and_assoc]
  refine ⟨?_, ofFilesUnder_startingWith _ _ _ _ _ _ _ hfront,
    Text.contains_join (by decide) (by decide), Plugin.addTo_addTo⟩
  obtain ⟨hnone, hinvocations⟩ | ⟨-, exe, found, hfind, houtcome, hinvocations, htree⟩ :=
    ofFilesUnder_cases schedule host project files database options interruption
  · refine ⟨⟨[], List.nil_subset _, hinvocations, fun code report hcompleted => ?_⟩,
      .inl ⟨hnone, hinvocations⟩⟩
    rw [hnone] at hcompleted
    cases hcompleted
  · refine ⟨?_, .inr ⟨exe, found, hfind, htree⟩⟩
    -- The host on which the run begins is of no account, only the batches that are called are.
    obtain rfl : left = found := congrArg Prod.snd hfind
    have hsubset := (workload project options).calls_runUnder_subset
      (invocation project options exe (Analysis.plugin? left project options) database).run
      interruption (schedule batches.length) files
      (pluginNotices left project options exe (Analysis.plugin? left project options)).2
    refine ⟨_, hsubset, ?_, fun code report hcompleted => ?_⟩
    · refine hinvocations.trans (List.map_congr_left fun batch _ => ?_)
      rw [arguments_invocation, ← hfront]
    · rw [houtcome] at hcompleted
      exact ((workload project options).calls_of_completed (Option.some.inj hcompleted)).1

end Analysis

end EngineUpkeep
