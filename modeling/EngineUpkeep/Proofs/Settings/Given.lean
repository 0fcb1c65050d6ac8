import EngineUpkeep.Project
import EngineUpkeep.Proofs.Toml.Record

/-!
# The settings that a document gives

A document gives settings one by one, and it is followed as a whole or not at all. This module says
both without the way in which settings are read.

* `Setting` names the ten settings, each with its section, its name, what its values look like
  (`Setting.read`) and where it is kept (`Setting.get`).
* `Setting.given?` is what a document gives for a setting.
* `Settings.Fits` says of a document that nothing known in it is of the wrong kind, and
  `Settings.Follows` that settings are those of the document, one by one.
* `Settings.ofToml?_eq_some_iff`: the settings that are read off a document are those that follow
  it, and there are such settings exactly for a document that fits (`Settings.fits_iff`).
* `Settings.follows_or_default`: a project has the settings of its document, one by one, or else
  nothing but defaults.
-/

namespace EngineUpkeep

/-- A section of the settings. -/
inductive SettingsSection where
  /-- How the analyzer is run. -/
  | analysis
  /-- Which sources are left out. -/
  | filter
  /-- Where the plugin of the analyzer is looked for. -/
  | plugin
  /-- Where the source trees are. -/
  | unify
deriving DecidableEq, Repr

namespace SettingsSection

/-- The name of a section. -/
def name : SettingsSection → Text
  | analysis => "analysis"
  | filter => "filter"
  | plugin => "plugin"
  | unify => "unify"

/-- The names of the settings of a section, in order. -/
def names : SettingsSection → List Text
  | analysis => AnalysisSection.names
  | filter => FilterSection.names
  | plugin => PluginSection.names
  | unify => UnifySection.names

end SettingsSection

/-- A setting. -/
inductive Setting where
  /-- The directory of the compile database. -/
  | buildDirectory
  /-- How many files one run of the analyzer should get. -/
  | batchSize
  /-- The analyzer to use. -/
  | analyzer
  /-- How many seconds an analyzer has to answer. -/
  | probeSeconds
  /-- The texts that leave a source out. -/
  | excludePatterns
  /-- The places of the plugin. -/
  | candidates
  /-- The tree of the first variant. -/
  | generalsDirectory
  /-- The tree of the second variant. -/
  | zeroHourDirectory
  /-- The tree that both variants share. -/
  | coreDirectory
  /-- The name of the build list of a group. -/
  | listName
deriving DecidableEq, Repr

namespace Setting

/-- The section of a setting. -/
def home : Setting → SettingsSection
  | buildDirectory | batchSize | analyzer | probeSeconds => .analysis
  | excludePatterns => .filter
  | candidates => .plugin
  | generalsDirectory | zeroHourDirectory | coreDirectory | listName => .unify

/-- The name of a setting in its section. -/
def name : Setting → Text
  | buildDirectory => "build_dir"
  | batchSize => "batch_size"
  | analyzer => "clang_tidy"
  | probeSeconds => "probe_timeout_secs"
  | excludePatterns => "exclude_patterns"
  | candidates => "candidates"
  | generalsDirectory => "generals_dir"
  | zeroHourDirectory => "zero_hour_dir"
  | coreDirectory => "core_dir"
  | listName => "manifest_name"

/-- The type of the values of a setting. -/
def Value : Setting → Type
  | batchSize | probeSeconds => Nat
  | analyzer => Option Text
  | excludePatterns | candidates => List Text
  | buildDirectory | generalsDirectory | zeroHourDirectory | coreDirectory | listName => Text

/-- The value of a setting that is written like this, if it is of the right kind and in range. -/
def read : (setting : Setting) → Toml → Option setting.Value
  | batchSize | probeSeconds => Toml.word?
  | analyzer => fun toml => toml.text?.map some
  | excludePatterns | candidates => Toml.texts?
  | buildDirectory | generalsDirectory | zeroHourDirectory | coreDirectory | listName => Toml.text?

/-- The value that a setting has. -/
def get (settings : Settings) : (setting : Setting) → setting.Value
  | buildDirectory => settings.analysis.buildDirectory
  | batchSize => settings.analysis.batchSize
  | analyzer => settings.analysis.analyzer?
  | probeSeconds => settings.analysis.probeSeconds
  | excludePatterns => settings.filter.excludePatterns
  | candidates => settings.plugin.candidates
  | generalsDirectory => settings.unify.generalsDirectory
  | zeroHourDirectory => settings.unify.zeroHourDirectory
  | coreDirectory => settings.unify.coreDirectory
  | listName => settings.unify.listName

/-- The value of a setting where nothing is given. -/
def default (setting : Setting) : setting.Value :=
  setting.get {}

/-- What a document gives for a setting. -/
def given? (doc : Toml) (setting : Setting) : Option Toml :=
  (doc.field? Settings.names setting.home.name).bind fun value =>
    value.field? setting.home.names setting.name

end Setting

variable {doc : Toml} {settings : Settings}

/-! ## Reading one setting -/

/-- A setting has the value that is read off what is given, and its default if nothing is given. -/
theorem settingOr_eq_some_iff {α : Type} {default value : α} {read : Toml → Option α}
    {given : Option Toml} :
    settingOr default read given = some value ↔
      (∀ toml, given = some toml → read toml = some value) ∧ (given = none → value = default) := by
  cases given <;> simp [settingOr, eq_comm]

namespace Settings

/-- The document is a record of sections, and each section that is there one of settings. -/
structure HasSections (doc : Toml) : Prop where
  /-- The document is a record of sections. -/
  document : doc.IsRecord names
  /-- Each section that is there is a record of settings. -/
  records : ∀ (home : SettingsSection) value, doc.field? names home.name = some value →
    value.IsRecord home.names

/-- Nothing known in a document is of the wrong kind. -/
structure Fits (doc : Toml) : Prop extends HasSections doc where
  /-- Each setting that is given has a value. -/
  settings : ∀ setting value, Setting.given? doc setting = some value →
    (setting.read value).isSome = true

/-- The settings are those of a document: each of them has the value that is given for it, and its
default if none is. -/
def Follows (settings : Settings) (doc : Toml) : Prop :=
  ∀ setting : Setting,
    (∀ value, setting.given? doc = some value → setting.read value = some (setting.get settings)) ∧
      (setting.given? doc = none → setting.get settings = setting.default)

end Settings

/-! ## Reading a section -/

namespace Settings

/-- The settings of a section are read off what is given under their names. -/
def Reads (settings : Settings) (home : SettingsSection) (given? : Text → Option Toml) : Prop :=
  ∀ setting : Setting, setting.home = home →
    settingOr setting.default setting.read (given? setting.name) = some (setting.get settings)

theorem reads_analysis_iff {given? : Text → Option Toml} :
    settings.Reads .analysis given? ↔
      settingOr ({} : AnalysisSection).buildDirectory Toml.text? (given? "build_dir") =
          some settings.analysis.buildDirectory ∧
      settingOr ({} : AnalysisSection).batchSize Toml.word? (given? "batch_size") =
          some settings.analysis.batchSize ∧
      settingOr ({} : AnalysisSection).analyzer? (fun value => value.text?.map some)
          (given? "clang_tidy") = some settings.analysis.analyzer? ∧
      settingOr ({} : AnalysisSection).probeSeconds Toml.word? (given? "probe_timeout_secs") =
          some settings.analysis.probeSeconds := by
  constructor
  · intro h
    exact ⟨h .buildDirectory rfl, h .batchSize rfl, h .analyzer rfl, h .probeSeconds rfl⟩
  · rintro ⟨hbuild, hbatch, hanalyzer, hprobe⟩ setting hhome
    cases setting with
    | buildDirectory => exact hbuild
    | batchSize => exact hbatch
    | analyzer => exact hanalyzer
    | probeSeconds => exact hprobe
    | _ => cases hhome

theorem ofToml?_analysis_eq_some_iff {toml : Toml} :
    AnalysisSection.ofToml? toml = some settings.analysis ↔
      toml.IsRecord AnalysisSection.names ∧
        settings.Reads .analysis fun name => toml.field? AnalysisSection.names name := by
  rw [AnalysisSection.ofToml?, Toml.record?_bind_eq_some_iff (by decide), reads_analysis_iff]
  refine and_congr_right fun _ => ?_
  simp only [AnalysisSection.names, List.map_cons, List.map_nil, Option.bind_eq_bind,
    Option.bind_eq_some_iff, Option.some.injEq]
  constructor
  · rintro ⟨_, hbuild, _, hbatch, _, hanalyzer, _, hprobe, hsection⟩
    rw [← hsection]
    exact ⟨hbuild, hbatch, hanalyzer, hprobe⟩
  · rintro ⟨hbuild, hbatch, hanalyzer, hprobe⟩
    exact ⟨_, hbuild, _, hbatch, _, hanalyzer, _, hprobe, rfl⟩

theorem default_analysis_eq_iff :
    {} = settings.analysis ↔ settings.Reads .analysis fun _ => none := by
  rw [reads_analysis_iff]
  rcases settings.analysis with ⟨buildDirectory, batchSize, analyzer?, probeSeconds⟩
  simp [settingOr]

theorem reads_filter_iff {given? : Text → Option Toml} :
    settings.Reads .filter given? ↔
      settingOr ({} : FilterSection).excludePatterns Toml.texts? (given? "exclude_patterns") =
        some settings.filter.excludePatterns := by
  constructor
  · intro h
    exact h .excludePatterns rfl
  · intro hpatterns setting hhome
    cases setting with
    | excludePatterns => exact hpatterns
    | _ => cases hhome

theorem ofToml?_filter_eq_some_iff {toml : Toml} :
    FilterSection.ofToml? toml = some settings.filter ↔
      toml.IsRecord FilterSection.names ∧
        settings.Reads .filter fun name => toml.field? FilterSection.names name := by
  rw [FilterSection.ofToml?, Toml.record?_bind_eq_some_iff (by decide), reads_filter_iff]
  refine and_congr_right fun _ => ?_
  simp only [FilterSection.names, List.map_cons, List.map_nil, Option.bind_eq_bind,
    Option.bind_eq_some_iff, Option.some.injEq]
  constructor
  · rintro ⟨_, hpatterns, hsection⟩
    rw [← hsection]
    exact hpatterns
  · intro hpatterns
    exact ⟨_, hpatterns, rfl⟩

theorem default_filter_eq_iff :
    {} = settings.filter ↔ settings.Reads .filter fun _ => none := by
  rw [reads_filter_iff]
  rcases settings.filter with ⟨excludePatterns⟩
  simp [settingOr]

theorem reads_plugin_iff {given? : Text → Option Toml} :
    settings.Reads .plugin given? ↔
      settingOr ({} : PluginSection).candidates Toml.texts? (given? "candidates") =
        some settings.plugin.candidates := by
  constructor
  · intro h
    exact h .candidates rfl
  · intro hcandidates setting hhome
    cases setting with
    | candidates => exact hcandidates
    | _ => cases hhome

theorem ofToml?_plugin_eq_some_iff {toml : Toml} :
    PluginSection.ofToml? toml = some settings.plugin ↔
      toml.IsRecord PluginSection.names ∧
        settings.Reads .plugin fun name => toml.field? PluginSection.names name := by
  rw [PluginSection.ofToml?, Toml.record?_bind_eq_some_iff (by decide), reads_plugin_iff]
  refine and_congr_right fun _ => ?_
  simp only [PluginSection.names, List.map_cons, List.map_nil, Option.bind_eq_bind,
    Option.bind_eq_some_iff, Option.some.injEq]
  constructor
  · rintro ⟨_, hcandidates, hsection⟩
    rw [← hsection]
    exact hcandidates
  · intro hcandidates
    exact ⟨_, hcandidates, rfl⟩

theorem default_plugin_eq_iff :
    {} = settings.plugin ↔ settings.Reads .plugin fun _ => none := by
  rw [reads_plugin_iff]
  rcases settings.plugin with ⟨candidates⟩
  simp [settingOr]

theorem reads_unify_iff {given? : Text → Option Toml} :
    settings.Reads .unify given? ↔
      settingOr ({} : UnifySection).generalsDirectory Toml.text? (given? "generals_dir") =
          some settings.unify.generalsDirectory ∧
      settingOr ({} : UnifySection).zeroHourDirectory Toml.text? (given? "zero_hour_dir") =
          some settings.unify.zeroHourDirectory ∧
      settingOr ({} : UnifySection).coreDirectory Toml.text? (given? "core_dir") =
          some settings.unify.coreDirectory ∧
      settingOr ({} : UnifySection).listName Toml.text? (given? "manifest_name") =
          some settings.unify.listName := by
  constructor
  · intro h
    exact ⟨h .generalsDirectory rfl, h .zeroHourDirectory rfl, h .coreDirectory rfl,
      h .listName rfl⟩
  · rintro ⟨hgenerals, hzeroHour, hcore, hlist⟩ setting hhome
    cases setting with
    | generalsDirectory => exact hgenerals
    | zeroHourDirectory => exact hzeroHour
    | coreDirectory => exact hcore
    | listName => exact hlist
    | _ => cases hhome

theorem ofToml?_unify_eq_some_iff {toml : Toml} :
    UnifySection.ofToml? toml = some settings.unify ↔
      toml.IsRecord UnifySection.names ∧
        settings.Reads .unify fun name => toml.field? UnifySection.names name := by
  rw [UnifySection.ofToml?, Toml.record?_bind_eq_some_iff (by decide), reads_unify_iff]
  refine and_congr_right fun _ => ?_
  simp only [UnifySection.names, List.map_cons, List.map_nil, Option.bind_eq_bind,
    Option.bind_eq_some_iff, Option.some.injEq]
  constructor
  · rintro ⟨_, hgenerals, _, hzeroHour, _, hcore, _, hlist, hsection⟩
    rw [← hsection]
    exact ⟨hgenerals, hzeroHour, hcore, hlist⟩
  · rintro ⟨hgenerals, hzeroHour, hcore, hlist⟩
    exact ⟨_, hgenerals, _, hzeroHour, _, hcore, _, hlist, rfl⟩

theorem default_unify_eq_iff :
    {} = settings.unify ↔ settings.Reads .unify fun _ => none := by
  rw [reads_unify_iff]
  rcases settings.unify with ⟨generals, zeroHour, core, list⟩
  simp [settingOr]

/-! ## Reading a document -/

/-- A section that is not given has the defaults of its settings, so its settings are read off what
the document gives for each of them either way. -/
theorem settingOr_section_eq_some_iff {α : Type} {home : SettingsSection} {read : Toml → Option α}
    {default value : α} {given : Option Toml}
    (hread : ∀ toml, read toml = some value ↔ toml.IsRecord home.names ∧
      settings.Reads home fun name => toml.field? home.names name)
    (hdefault : default = value ↔ settings.Reads home fun _ => none) :
    settingOr default read given = some value ↔
      (∀ toml, given = some toml → toml.IsRecord home.names) ∧
        settings.Reads home fun name => given.bind (Toml.field? home.names name) := by
  cases given with
  | none => simp [settingOr, hdefault]
  | some toml => simp [settingOr, hread]

/-- The settings of all sections are all settings. -/
theorem follows_iff_reads :
    settings.Follows doc ↔ ∀ home : SettingsSection, settings.Reads home fun name =>
      (doc.field? names home.name).bind (Toml.field? home.names name) := by
  constructor
  · rintro h _ setting rfl
    exact settingOr_eq_some_iff.2 (h setting)
  · intro h setting
    exact settingOr_eq_some_iff.1 (h setting.home setting rfl)

/-- Settings are read off a document section by section. -/
theorem ofToml?_eq_some_iff_sections :
    ofToml? doc = some settings ↔ doc.IsRecord names ∧
      settingOr {} AnalysisSection.ofToml? (doc.field? names "analysis") = some settings.analysis ∧
      settingOr {} FilterSection.ofToml? (doc.field? names "filter") = some settings.filter ∧
      settingOr {} PluginSection.ofToml? (doc.field? names "plugin") = some settings.plugin ∧
      settingOr {} UnifySection.ofToml? (doc.field? names "unify") = some settings.unify := by
  rw [ofToml?, Toml.record?_bind_eq_some_iff (by decide)]
  refine and_congr_right fun _ => ?_
  simp only [names, List.map_cons, List.map_nil, Option.bind_eq_bind, Option.bind_eq_some_iff,
    Option.some.injEq]
  constructor
  · rintro ⟨_, hanalysis, _, hfilter, _, hplugin, _, hunify, hsettings⟩
    rw [← hsettings]
    exact ⟨hanalysis, hfilter, hplugin, hunify⟩
  · rintro ⟨hanalysis, hfilter, hplugin, hunify⟩
    exact ⟨_, hanalysis, _, hfilter, _, hplugin, _, hunify, rfl⟩

/-- The settings that are read off a document are those that follow it. -/
theorem ofToml?_eq_some_iff :
    ofToml? doc = some settings ↔ HasSections doc ∧ settings.Follows doc := by
  rw [ofToml?_eq_some_iff_sections, follows_iff_reads,
    settingOr_section_eq_some_iff (fun _ => ofToml?_analysis_eq_some_iff) default_analysis_eq_iff,
    settingOr_section_eq_some_iff (fun _ => ofToml?_filter_eq_some_iff) default_filter_eq_iff,
    settingOr_section_eq_some_iff (fun _ => ofToml?_plugin_eq_some_iff) default_plugin_eq_iff,
    settingOr_section_eq_some_iff (fun _ => ofToml?_unify_eq_some_iff) default_unify_eq_iff]
  constructor
  · rintro ⟨hdocument, ⟨hanalysis, hreadsAnalysis⟩, ⟨hfilter, hreadsFilter⟩,
      ⟨hplugin, hreadsPlugin⟩, ⟨hunify, hreadsUnify⟩⟩
    refine ⟨⟨hdocument, fun home => ?_⟩, fun home => ?_⟩
    · cases home with
      | analysis => exact hanalysis
      | filter => exact hfilter
      | plugin => exact hplugin
      | unify => exact hunify
    · cases home with
      | analysis => exact hreadsAnalysis
      | filter => exact hreadsFilter
      | plugin => exact hreadsPlugin
      | unify => exact hreadsUnify
  · rintro ⟨⟨hdocument, hrecords⟩, hreads⟩
    exact ⟨hdocument, ⟨hrecords .analysis, hreads .analysis⟩, ⟨hrecords .filter, hreads .filter⟩,
      ⟨hrecords .plugin, hreads .plugin⟩, ⟨hrecords .unify, hreads .unify⟩⟩

/-- The settings with these values. -/
def ofValues (value : (setting : Setting) → setting.Value) : Settings where
  analysis :=
    { buildDirectory := value .buildDirectory
      batchSize := value .batchSize
      analyzer? := value .analyzer
      probeSeconds := value .probeSeconds }
  filter := { excludePatterns := value .excludePatterns }
  plugin := { candidates := value .candidates }
  unify :=
    { generalsDirectory := value .generalsDirectory
      zeroHourDirectory := value .zeroHourDirectory
      coreDirectory := value .coreDirectory
      listName := value .listName }

theorem get_ofValues (value : (setting : Setting) → setting.Value) (setting : Setting) :
    setting.get (ofValues value) = value setting := by
  cases setting <;> rfl

/-- Settings follow a document exactly if nothing known in it is of the wrong kind. -/
theorem fits_iff : Fits doc ↔ ∃ settings, ofToml? doc = some settings := by
  constructor
  · intro hfits
    have hvalue (setting : Setting) : ∃ value : setting.Value,
        (∀ toml, setting.given? doc = some toml → setting.read toml = some value) ∧
          (setting.given? doc = none → value = setting.default) := by
      cases hgiven : setting.given? doc with
      | none => exact ⟨setting.default, by simp⟩
      | some toml =>
        obtain ⟨value, hread⟩ := Option.isSome_iff_exists.1 (hfits.settings setting toml hgiven)
        exact ⟨value, by simpa using hread⟩
    choose value hvalue using hvalue
    refine ⟨ofValues value, ofToml?_eq_some_iff.2 ⟨hfits.toHasSections, fun setting => ?_⟩⟩
    rw [get_ofValues]
    exact hvalue setting
  · rintro ⟨settings, hread⟩
    obtain ⟨hsections, hfollows⟩ := ofToml?_eq_some_iff.1 hread
    refine ⟨hsections, fun setting toml hgiven => ?_⟩
    rw [(hfollows setting).1 toml hgiven]
    rfl

/-! ## The settings of a project -/

variable {tree : FileTree} {current : Location} {root : Path}

/-- The project has a document, and nothing known in it is of the wrong kind. -/
def HasFittingDocument (tree : FileTree) (current : Location) (root : Path) (doc : Toml) : Prop :=
  ∃ text, tree.readText current (settingsFile root) = .ok text ∧ Toml.read? text = some doc ∧
    Fits doc

theorem follows_load (h : HasFittingDocument tree current root doc) :
    (load tree current root).Follows doc := by
  obtain ⟨text, htext, hdoc, hfits⟩ := h
  obtain ⟨settings, hsettings⟩ := fits_iff.1 hfits
  have hload : load tree current root = settings := by
    simp [load, htext, read?, hdoc, hsettings]
  rw [hload]
  exact (ofToml?_eq_some_iff.1 hsettings).2

theorem load_eq_default (h : ∀ doc, ¬ HasFittingDocument tree current root doc) :
    load tree current root = {} := by
  unfold load
  rcases htext : tree.readText current (settingsFile root) with fault | text
  · rfl
  · rcases hdoc : Toml.read? text with _ | doc
    · simp [read?, hdoc]
    · rcases hsettings : ofToml? doc with _ | settings
      · simp [read?, hdoc, hsettings]
      · exact absurd ⟨text, htext, hdoc, fits_iff.2 ⟨settings, hsettings⟩⟩ (h doc)

/-- The settings of a project are those of its document, one by one, if there is a document in which
nothing known is of the wrong kind. Otherwise all of them are the defaults. -/
theorem follows_or_default :
    (∃ doc, HasFittingDocument tree current root doc ∧
      (Project.ofRoot tree current root).settings.Follows doc) ∨
    ((∀ doc, ¬ HasFittingDocument tree current root doc) ∧
      (Project.ofRoot tree current root).settings = {}) := by
  by_cases h : ∃ doc, HasFittingDocument tree current root doc
  · obtain ⟨doc, hdoc⟩ := h
    exact .inl ⟨doc, hdoc, follows_load hdoc⟩
  · exact .inr ⟨not_exists.1 h, load_eq_default (not_exists.1 h)⟩

/-- Each section that a document gives is written as a table. -/
def InTables (doc : Toml) : Prop :=
  ∀ (home : SettingsSection) value, doc.field? names home.name = some value →
    value.isTable = true

theorem exists_not_inTables {text : Text}
    (h : ((Toml.read? text).bind (Toml.field? names "analysis")).any (!·.isTable) = true) :
    ∃ doc, Toml.read? text = some doc ∧ ¬ InTables doc := by
  obtain ⟨value, hvalue, htable⟩ := (Option.any_eq_true _ _).1 h
  obtain ⟨doc, hdoc, hfield⟩ := Option.bind_eq_some_iff.1 hvalue
  refine ⟨doc, hdoc, fun htables => ?_⟩
  simp [htables .analysis value hfield] at htable

/-- A project `/p` with a document of settings. -/
def projectWith (text : Text) : FileTree :=
  { entries := [(["p"], .directory), (["p", ".devtools"], .directory),
      (["p", ".devtools", "config.toml"], .file (.text text) false)] }

/-- A document with a date for a section. -/
def datedSection : Text := "analysis = 1979-05-27\n[unify]\ncore_dir = \"C\"\n"

/-- A document with an array for a section. -/
def listedSection : Text := "analysis = [\"b\", 3]"

/-- A section does not have to be a table. A date gives nothing and leaves the other sections, and
the items of an array are settings in the order of their names. -/
theorem not_default_without_tables :
    ((projectWith datedSection).readText ["p"] (settingsFile ⟨"/p"⟩) = .ok datedSection ∧
      (∃ doc, Toml.read? datedSection = some doc ∧ ¬ InTables doc) ∧
      (Project.ofRoot (projectWith datedSection) ["p"] ⟨"/p"⟩).settings =
        { unify := { coreDirectory := "C" } }) ∧
    ((projectWith listedSection).readText ["p"] (settingsFile ⟨"/p"⟩) = .ok listedSection ∧
      (∃ doc, Toml.read? listedSection = some doc ∧ ¬ InTables doc) ∧
      (Project.ofRoot (projectWith listedSection) ["p"] ⟨"/p"⟩).settings =
        { analysis := { buildDirectory := "b", batchSize := 3 } }) ∧
    ({ unify := { coreDirectory := "C" } } : Settings) ≠ {} ∧
      ({ analysis := { buildDirectory := "b", batchSize := 3 } } : Settings) ≠ {} :=
  ⟨⟨rfl, exists_not_inTables (by decide +kernel), by decide +kernel⟩,
    ⟨rfl, exists_not_inTables (by decide +kernel), by decide +kernel⟩,
    by decide +kernel, by decide +kernel⟩

end Settings

end EngineUpkeep
