import EngineUpkeep.Toml.Document

/-!
# Settings

A project may change how it is analyzed and where its source trees are. Every setting has a default.
A table of settings gives the settings that it names and leaves the others; names that are not known
are not looked at. One known name with a value of the wrong kind spoils the whole table.
-/

namespace EngineUpkeep

/-- The most files that one run of the analyzer gets, so that its command line stays short enough.
-/
def batchSizeLimit : Nat := 50

/-- The file that marks the root of a project. -/
def rootFileName : Text := "CMakeLists.txt"

/-- How the analyzer is run. -/
structure AnalysisSection where
  /-- The directory of the compile database, seen from the project root. -/
  buildDirectory : Text := "build/clang-tidy"
  /-- How many files one run of the analyzer should get. -/
  batchSize : Nat := batchSizeLimit
  /-- The analyzer to use. -/
  analyzer? : Option Text := none
  /-- How many seconds an analyzer has to answer when it is asked for its version. -/
  probeSeconds : Nat := 5
deriving DecidableEq, Repr

/-- Which sources are left out. -/
structure FilterSection where
  /-- A source whose key has one of these texts in it is never analyzed. -/
  excludePatterns : List Text := ["Dependencies/MaxSDK", "_deps/", "build/", ".git/"]
deriving DecidableEq, Repr

/-- The directory in which the plugin of the analyzer is built. -/
def pluginDirectory : Text := "scripts/clang-tidy-plugin/build"

/-- The name of the plugin without its extension. -/
def pluginName : Text := "libGeneralsGameCodeClangTidyPlugin"

/-- Where the plugin of the analyzer is looked for. -/
structure PluginSection where
  /-- The places in the order in which they are tried, seen from the project root. -/
  candidates : List Text :=
    [pluginDirectory ++ "/lib/" ++ pluginName ++ ".so",
      pluginDirectory ++ "/lib/" ++ pluginName ++ ".dylib",
      pluginDirectory ++ "/lib/" ++ pluginName ++ ".dll",
      pluginDirectory ++ "/bin/" ++ pluginName ++ ".dll"]
deriving DecidableEq, Repr

/-- Where the source trees are. -/
structure UnifySection where
  /-- The tree of the first variant, seen from the project root. -/
  generalsDirectory : Text := "Generals/Code"
  /-- The tree of the second variant. -/
  zeroHourDirectory : Text := "GeneralsMD/Code"
  /-- The tree that both variants share. -/
  coreDirectory : Text := "Core"
  /-- The name of the build list of a group. -/
  listName : Text := rootFileName
deriving DecidableEq, Repr

/-- The settings of a project. -/
structure Settings where
  /-- How the analyzer is run. -/
  analysis : AnalysisSection := {}
  /-- Which sources are left out. -/
  filter : FilterSection := {}
  /-- Where the plugin of the analyzer is looked for. -/
  plugin : PluginSection := {}
  /-- Where the source trees are. -/
  unify : UnifySection := {}
deriving DecidableEq, Repr

/-- A batch size brought into the range from one to `batchSizeLimit`. -/
def clampBatchSize (size : Nat) : Nat :=
  max 1 (min size batchSizeLimit)

/-- How many files one run of the analyzer gets. -/
def AnalysisSection.usableBatchSize (settings : AnalysisSection) : Nat :=
  clampBatchSize settings.batchSize

/-- The value of a setting: its default if it is not given, and what `read` makes of it if it is. -/
def settingOr {α : Type} (default : α) (read : Toml → Option α) : Option Toml → Option α
  | none => some default
  | some value => read value

namespace AnalysisSection

/-- The names of the settings, in order. -/
def names : List Text := ["build_dir", "batch_size", "clang_tidy", "probe_timeout_secs"]

/-- The settings that a table gives. -/
def ofToml? (toml : Toml) : Option AnalysisSection := do
  match ← toml.record? names with
  | [buildDirectory, batchSize, analyzer, probeSeconds] =>
    let defaults : AnalysisSection := {}
    let buildDirectory ← settingOr defaults.buildDirectory Toml.text? buildDirectory
    let batchSize ← settingOr defaults.batchSize Toml.word? batchSize
    let analyzer? ← settingOr defaults.analyzer? (fun value => value.text?.map some) analyzer
    let probeSeconds ← settingOr defaults.probeSeconds Toml.word? probeSeconds
    some { buildDirectory, batchSize, analyzer?, probeSeconds }
  | _ => none

end AnalysisSection

namespace FilterSection

/-- The names of the settings, in order. -/
def names : List Text := ["exclude_patterns"]

/-- The settings that a table gives. -/
def ofToml? (toml : Toml) : Option FilterSection := do
  match ← toml.record? names with
  | [patterns] =>
    let defaults : FilterSection := {}
    let excludePatterns ← settingOr defaults.excludePatterns Toml.texts? patterns
    some { excludePatterns }
  | _ => none

end FilterSection

namespace PluginSection

/-- The names of the settings, in order. -/
def names : List Text := ["candidates"]

/-- The settings that a table gives. -/
def ofToml? (toml : Toml) : Option PluginSection := do
  match ← toml.record? names with
  | [candidates] =>
    let defaults : PluginSection := {}
    let candidates ← settingOr defaults.candidates Toml.texts? candidates
    some { candidates }
  | _ => none

end PluginSection

namespace UnifySection

/-- The names of the settings, in order. -/
def names : List Text := ["generals_dir", "zero_hour_dir", "core_dir", "manifest_name"]

/-- The settings that a table gives. -/
def ofToml? (toml : Toml) : Option UnifySection := do
  match ← toml.record? names with
  | [generals, zeroHour, core, manifest] =>
    let defaults : UnifySection := {}
    let generalsDirectory ← settingOr defaults.generalsDirectory Toml.text? generals
    let zeroHourDirectory ← settingOr defaults.zeroHourDirectory Toml.text? zeroHour
    let coreDirectory ← settingOr defaults.coreDirectory Toml.text? core
    let listName ← settingOr defaults.listName Toml.text? manifest
    some { generalsDirectory, zeroHourDirectory, coreDirectory, listName }
  | _ => none

end UnifySection

namespace Settings

/-- The names of the sections, in order. -/
def names : List Text := ["analysis", "filter", "plugin", "unify"]

/-- The settings that a table of sections gives. -/
def ofToml? (toml : Toml) : Option Settings := do
  match ← toml.record? names with
  | [analysis, filter, plugin, unify] =>
    let analysis ← settingOr {} AnalysisSection.ofToml? analysis
    let filter ← settingOr {} FilterSection.ofToml? filter
    let plugin ← settingOr {} PluginSection.ofToml? plugin
    let unify ← settingOr {} UnifySection.ofToml? unify
    some { analysis, filter, plugin, unify }
  | _ => none

/-- The settings that a document gives. -/
def read? (text : Text) : Option Settings := do
  ofToml? (← Toml.read? text)

end Settings

/-- The effective batch size is at least one and at most `batchSizeLimit`. -/
theorem clampBatchSize_bounds (size : Nat) :
    1 ≤ clampBatchSize size ∧ clampBatchSize size ≤ batchSizeLimit := by
  unfold clampBatchSize batchSizeLimit
  omega

/-- A batch size that is in the range stays. -/
theorem clampBatchSize_of_bounds {size : Nat} (hpos : 1 ≤ size) (hle : size ≤ batchSizeLimit) :
    clampBatchSize size = size := by
  unfold clampBatchSize
  omega

/-- Bringing a batch size into the range twice is the same as once. -/
theorem clampBatchSize_clampBatchSize (size : Nat) :
    clampBatchSize (clampBatchSize size) = clampBatchSize size :=
  clampBatchSize_of_bounds (clampBatchSize_bounds size).1 (clampBatchSize_bounds size).2

end EngineUpkeep
