import EngineUpkeep.Analyzer.Invocation
import EngineUpkeep.Analyzer.Lookup
import EngineUpkeep.Analyzer.Plugin
import EngineUpkeep.Analyzer.Version
import EngineUpkeep.Workload.Pool
import EngineUpkeep.Selection

/-!
# Analyses

An analysis finds the compile database, decides on the files, runs the analyzer over them in batches
and prints a report. Whoever wants the report as JSON gets it alone on the output; everything else
that is printed then goes to the errors or is left out.

A session is what can be seen of an analysis: its result, both streams, the arguments with which the
analyzer was started, and the file tree, which only the programs that are started can change. What
an analysis looks for after such a start it looks for in the tree that is left. A session has
neither an outcome nor starts on batches if the analyzer was not run over any files.
-/

namespace EngineUpkeep

/-- The exit code of a run that was interrupted. -/
def interruptionExitCode : Int := 130

/-- How the analyzer is run over some files. -/
structure AnalysisOptions where
  /-- Arguments that are handed to the analyzer. -/
  extraArguments : List Text := []
  /-- The analyzer is to apply its suggestions. -/
  fix : Bool := false
  /-- How many workers there are. -/
  jobs : Nat := 1
  /-- Details are printed. -/
  verbose : Bool := false
  /-- The plugin of the project is loaded, if it is there. -/
  usesPlugin : Bool := true
  /-- The report is printed as JSON. -/
  json : Bool := false
deriving DecidableEq, Repr

/-- What an analysis is asked to do. -/
structure Request where
  /-- The directory of the compile database. -/
  buildDirectory? : Option Path := none
  /-- Only sources whose key has one of these texts in it are analyzed, if there are any. -/
  includes : List Text := []
  /-- Sources whose key has one of these texts in it are left out. -/
  excludes : List Text := []
  /-- Files to analyze and words for the analyzer. -/
  trailing : List Text := []
  /-- How the analyzer is run. -/
  options : AnalysisOptions := {}
deriving DecidableEq, Repr

/-- What can be seen of an analysis. -/
structure Session where
  /-- The exit code, or why there is none. -/
  result : Except Failure Int
  /-- What was printed to the output. -/
  output : Text := []
  /-- What was printed to the errors. -/
  errors : Text := []
  /-- What came of the run over the files, if there was one. -/
  outcome? : Option Outcome := none
  /-- The arguments of each start of the analyzer on a batch. -/
  invocations : List (List Text) := []
  /-- The file tree that is left. -/
  tree : FileTree

namespace Session

/-- The session of an analysis that fails. -/
def failed (tree : FileTree) (failure : Failure) : Session := { result := .error failure, tree }

/-- The session after text that was printed to the output. -/
def afterOutput (text : Text) (session : Session) : Session :=
  { session with output := text ++ session.output }

/-- The session after text that was printed to the errors. -/
def afterErrors (text : Text) (session : Session) : Session :=
  { session with errors := text ++ session.errors }

/-- The session after a notice, which is a line for the reader. -/
def afterNotice (json : Bool) (notice : Text) (session : Session) : Session :=
  if json then session.afterErrors (notice ++ "\n") else session.afterOutput (notice ++ "\n")

/-- The session after several notices. -/
def afterNotices (json : Bool) (notices : List Text) (session : Session) : Session :=
  notices.foldr (afterNotice json) session

/-- The session that prints a notice and ends. -/
def ended (tree : FileTree) (json : Bool) (notice : Text) (exitCode : Int) : Session :=
  afterNotice json notice { result := .ok exitCode, tree }

end Session

namespace Analysis

/-- The notices about a plugin, if there is one. The analyzer is asked for its version then. -/
def pluginNotices (host : Host) (project : Project) (options : AnalysisOptions) (exe : Text) :
    Option Path → List Text × Host
  | none => ([], host)
  | some plugin =>
    let (answer?, host) := Tool.probeFor host project.settings.analysis exe
    (Plugin.notes plugin (answer?.bind Version.ofText?) options.verbose, host)

/-- The plugin that is loaded, if there is one and it is wanted. -/
def plugin? (host : Host) (project : Project) (options : AnalysisOptions) : Option Path :=
  if options.usesPlugin then Plugin.find? host.tree host.current project else none

/-- The arguments in front of the files. -/
def extraArguments (plugin? : Option Path) (options : AnalysisOptions) : List Text :=
  match plugin? with
  | some plugin => Plugin.addTo plugin options.extraArguments
  | none => options.extraArguments

/-- How the analyzer is started on each batch. -/
def invocation (project : Project) (options : AnalysisOptions) (exe : Text) (plugin? : Option Path)
    (database : Path) : Invocation :=
  { exe
    compileDirectory := database.parent?.getD project.root
    fix := options.fix
    extraArguments := extraArguments plugin? options
    root := project.root }

/-- How the files are shared out over runs of the analyzer. -/
def workload (project : Project) (options : AnalysisOptions) : Workload :=
  { root := project.root
    batchSize := project.settings.analysis.usableBatchSize
    jobs := options.jobs
    verbose := options.verbose
    progress := !options.json }

/-- The end of a session: the report of the run, or a notice that there is none. -/
def conclude (tree : FileTree) (json : Bool) : Outcome → Session
  | .noFiles => Session.ended tree json "No source files to analyze." 0
  | .interrupted => Session.ended tree json "\nInterrupted by user." interruptionExitCode
  | .completed exitCode report =>
    { result := .ok exitCode, tree
      output :=
        if json then (Report.outcomeJson exitCode report).write ++ "\n" else report.render }

/-- The session of a run over files. The progress comes before the report. -/
def ofRun (json : Bool) (invocation : Invocation) (run : Run Host) : Session :=
  { (conclude run.final.tree json run.outcome).afterOutput run.printed with
    outcome? := some run.outcome
    invocations := run.calls.map invocation.arguments }

/-- Runs the analyzer over files. If there are several workers, their steps happen as the schedule
for that many batches says. -/
def ofFilesUnder (schedule : Nat → List Step) (host : Host) (project : Project)
    (files : List Text) (database : Path) (options : AnalysisOptions)
    (interruption : Interruption) : Session :=
  if files = [] then Session.ended host.tree options.json "No source files to analyze." 0
  else match Tool.find host project.settings.analysis with
    | (.error failure, host) => .failed host.tree failure
    | (.ok exe, host) =>
      let plugin? := plugin? host project options
      let (notices, host) := pluginNotices host project options exe plugin?
      let invocation := invocation project options exe plugin? database
      let workload := workload project options
      let run := workload.runUnder invocation.run interruption
        (schedule (workload.batches files).length) files host
      (ofRun options.json invocation run).afterNotices options.json notices

/-- Runs the analyzer over files. The workers take the batches in order. -/
def ofFiles : Host → Project → List Text → Path → AnalysisOptions → Interruption → Session :=
  ofFilesUnder Pool.inOrder

/-- The patterns of sources that are left out: those of the settings and those of the request. -/
def excludes (project : Project) (request : Request) : List Text :=
  project.settings.filter.excludePatterns ++ request.excludes

/-- Runs the analyzer over the sources of the compile database that pass the patterns. -/
def ofDatabaseUnder (schedule : Nat → List Step) (host : Host) (project : Project)
    (request : Request) (database : Path) (options : AnalysisOptions)
    (interruption : Interruption) : Session :=
  match CompileDatabase.load host.tree host.current database with
  | .error failure => .failed host.tree failure
  | .ok entries =>
    let files :=
      Selection.ofDatabase entries project.root request.includes (excludes project request)
    if files = [] then
      Session.ended host.tree options.json "No source files found matching the criteria." 1
    else
      let notices : List Text :=
        if options.verbose then
          ["Found " ++ Text.ofNat files.length ++ " source file(s) to analyze\n"]
        else []
      (ofFilesUnder schedule host project files database options interruption).afterNotices
        options.json notices

/-- Carries out a request. Files that are named on the command line take the place of the compile
database's. If there are several workers, their steps happen as the schedule for the number of
batches says. -/
def runUnder (schedule : Nat → List Step) (host : Host) (project : Project) (request : Request)
    (interruption : Interruption) : Session :=
  match CompileDatabase.find host.tree host.current project request.buildDirectory? with
  | .error failure => .failed host.tree failure
  | .ok database =>
    let targets :=
      Targets.ofWords host.tree host.current project.root request.trailing
    let options := { request.options with extraArguments := targets.forAnalyzer }
    let session :=
      if targets.files = [] then
        ofDatabaseUnder schedule host project request database options interruption
      else
        let notices : List Text :=
          if options.verbose then
            ["Analyzing " ++ Text.ofNat targets.files.length ++ " specified file(s)\n"]
          else []
        (ofFilesUnder schedule host project targets.files database options
          interruption).afterNotices options.json notices
    session.afterNotice options.json ("Using compile commands: " ++ database.text ++ "\n")

/-- Carries out a request. The workers take the batches in order. -/
def run : Host → Project → Request → Interruption → Session :=
  runUnder Pool.inOrder

end Analysis

end EngineUpkeep
