import ManifestDiff.Proofs.Command.Loading
import ManifestDiff.Proofs.Command.Output
/-!
# Runs

A run that does not load everything writes nothing and tells the first failure. Any other run writes
its report, or as much of it as the writer takes. How the report is written has no part in the
verdict: of two runs that compare the same files by the same rule, neither can tell anything else.
-/
namespace ManifestDiff

def Toml.Entries.withoutOutput (entries : Toml.Entries) : Toml.Entries :=
  entries.filter fun entry => entry.1 != "output"

/-- Two runs compare the same files, and their configurations differ in the output only. They may
have other flags for the output as well. -/
structure SameComparison (arguments arguments' : Arguments) (files files' : FileSystem) :
    Prop where
  path : ∀ side, arguments.path side = arguments'.path side
  file : ∀ side, files (arguments.path side) = files' (arguments.path side)
  config : ∃ entries entries', Configured arguments files entries ∧
    Configured arguments' files' entries' ∧ entries.withoutOutput = entries'.withoutOutput

structure Settled (arguments : Arguments) (files : FileSystem) (colours : Bool) (writer : Writer)
    (run : Run) : Prop where
  failed : ∀ failure, FirstFailure arguments files Stage.all failure →
    run.verdict = .error failure ∧ run.writer = writer
  loads : (∀ stage failure, ¬Fails arguments files stage failure) →
    ∃ job, Loaded arguments files job
  written : ∀ job, Loaded arguments files job → ∃ text,
    job.config.output.Asks colours job.events text ∧ job.Written text writer run
  unbounded : writer.room = none → run.refusal? = none
  comparable : ∀ (arguments' : Arguments) (files' : FileSystem) (colours' : Bool)
    (writer' : Writer), SameComparison arguments arguments' files files' → run.refusal? = none →
    (arguments'.run files' colours' writer').refusal? = none →
    run.verdict = (arguments'.run files' colours' writer').verdict ∧
      (arguments.exitCode = arguments'.exitCode →
        run.exitCode arguments = (arguments'.run files' colours' writer').exitCode arguments')

variable {arguments arguments' : Arguments} {files files' : FileSystem} {colours : Bool}
  {writer : Writer} {job : Job} {failure : Failure}

theorem lastValue?_withoutOutput {name : String} (hname : name ≠ "output")
    (entries : Toml.Entries) :
    Toml.lastValue? name entries.withoutOutput = Toml.lastValue? name entries := by
  induction entries with
  | nil => rfl
  | cons entry entries ih =>
    obtain ⟨key, value⟩ := entry
    rw [Toml.lastValue?, ← ih]
    by_cases hkey : key = "output"
    · rw [Toml.Entries.withoutOutput, List.filter_cons_of_neg (by simp [hkey]),
        if_neg fun h => hname (h.symm.trans hkey), Option.or_none]
      rfl
    · rw [Toml.Entries.withoutOutput, List.filter_cons_of_pos (by simp [hkey]), Toml.lastValue?]
      rfl

theorem Configured.exists_describes {entries : Toml.Entries}
    (h : Configured arguments files entries) : ∃ base, Config.Describes entries base := by
  cases h with
  | default _ => exact ⟨{}, describes_default⟩
  | file _ _ hentries hparse => exact ⟨_, Config.describes_of_parse hentries hparse⟩

theorem identity_of_withoutOutput {entries entries' : Toml.Entries} {base base' : Config}
    (h : Config.Describes entries base) (h' : Config.Describes entries' base')
    (hsame : entries.withoutOutput = entries'.withoutOutput) : base.identity = base'.identity := by
  have hlast : Toml.lastValue? "identity" entries = Toml.lastValue? "identity" entries' := by
    rw [← lastValue?_withoutOutput (by decide) entries, hsame,
      lastValue?_withoutOutput (by decide)]
  exact h.identity.unique (hlast ▸ h'.identity)

theorem run_of_load_error (hload : (Job.load files arguments).result = .error failure) :
    (arguments.run files colours writer).verdict = .error failure ∧
      (arguments.run files colours writer).writer = writer := by
  rw [Arguments.run]
  dsimp only
  rw [hload]
  exact ⟨rfl, rfl⟩

theorem refusal?_of_verdict {run run' : Run} (h : run.verdict = run'.verdict) :
    run.refusal? = run'.refusal? := by
  rw [Run.refusal?, Run.refusal?, h]

private theorem refusal?_of_load_error
    (hload : (Job.load files arguments).result = .error failure) : failure.refusal? = none := by
  obtain ⟨_, _, _, _, hfails, _⟩ := (load_eq_error_iff).mp hload
  cases hfails <;> rfl

private theorem refusal?_of_unbounded (h : writer.room = none) :
    (arguments.run files colours writer).refusal? = none := by
  cases hload : (Job.load files arguments).result with
  | error failure =>
    rw [Run.refusal?, (run_of_load_error hload).1]
    exact refusal?_of_load_error hload
  | ok job =>
    rw [Run.refusal?, (run_of_load hload colours writer).1, Job.verdict_write_of_unbounded h]

/-- The verdict is that of what is loaded, whatever is written of it. -/
theorem verdict_of_refusal (h : (arguments.run files colours writer).refusal? = none) :
    (arguments.run files colours writer).verdict =
      (Job.load files arguments).result.map Job.stats := by
  cases hload : (Job.load files arguments).result with
  | error failure => exact (run_of_load_error hload).1
  | ok job =>
    have hverdict := (run_of_load hload colours writer).1
    rw [hverdict]
    rw [refusal?_of_verdict hverdict] at h
    exact Job.verdict_write_of_refusal h

section SameComparison

variable (h : SameComparison arguments arguments' files files')
include h

private theorem loadBoth_eq : loadBoth files arguments = loadBoth files' arguments' := by
  have hcheck (side : Side) : checkExists files (arguments.path side) =
      checkExists files' (arguments'.path side) := by
    rw [← h.path side, checkExists, checkExists, h.file side]
  have hload (side : Side) : (loadManifest files (arguments.path side)).result =
      (loadManifest files' (arguments'.path side)).result := by
    rw [← h.path side, result_loadManifest, result_loadManifest, FileSystem.read,
      FileSystem.read, h.file side]
  have hfind : checkExists files arguments.old = checkExists files' arguments'.old := hcheck .old
  have hfind' : checkExists files arguments.new = checkExists files' arguments'.new := hcheck .new
  have hold : (loadManifest files arguments.old).result =
      (loadManifest files' arguments'.old).result := hload .old
  have hnew : (loadManifest files arguments.new).result =
      (loadManifest files' arguments'.new).result := hload .new
  rw [loadBoth, loadBoth, hfind, hfind', hold, hnew]

private theorem map_stats_eq : (Job.load files arguments).result.map Job.stats =
    (Job.load files' arguments').result.map Job.stats := by
  obtain ⟨entries, entries', hentries, hentries', hsame⟩ := h.config
  obtain ⟨base, hbase⟩ := hentries.exists_describes
  obtain ⟨base', hbase'⟩ := hentries'.exists_describes
  have hsettings := (settings_eq_ok_iff).mpr ⟨entries, base, hentries, hbase, rfl⟩
  have hsettings' := (settings_eq_ok_iff).mpr ⟨entries', base', hentries', hbase', rfl⟩
  have hidentity : base.identity = base'.identity :=
    identity_of_withoutOutput hbase hbase' hsame
  rw [result_load, result_load, hsettings, hsettings', loadBoth_eq h]
  cases loadBoth files' arguments' with
  | error failure => rfl
  | ok objects =>
    have hstats : Report.stats base.identity objects.1 objects.2 =
        Report.stats base'.identity objects.1 objects.2 := by rw [hidentity]
    exact congrArg Except.ok hstats

end SameComparison

/-- A run tells the first failure and has written nothing, or it writes its report and tells the
numbers of it. What it tells does not depend on how the report is written. -/
theorem run_settled (arguments : Arguments) (files : FileSystem) (colours : Bool)
    (writer : Writer) :
    Settled arguments files colours writer (arguments.run files colours writer) := by
  refine ⟨?failed, exists_loaded, ?written, refusal?_of_unbounded, ?comparable⟩
  case failed => exact fun failure h => run_of_load_error ((load_eq_error_iff).mpr h)
  case written =>
    intro job h
    have hload : (Job.load files arguments).result = .ok job := (load_eq_ok_iff).mpr h
    obtain ⟨hverdict, hwriter⟩ := run_of_load hload colours writer
    obtain ⟨text, hasks, hcomplete, hcutOff, hfault⟩ := job.written_write colours writer
    refine ⟨text, hasks, ?_⟩
    constructor
    · rwa [hverdict, hwriter]
    · rwa [refusal?_of_verdict hverdict, hwriter]
    · rwa [hverdict]
  case comparable =>
    intro arguments' files' colours' writer' hsame h h'
    have hverdict : (arguments.run files colours writer).verdict =
        (arguments'.run files' colours' writer').verdict := by
      rw [verdict_of_refusal h, verdict_of_refusal h', map_stats_eq hsame]
    refine ⟨hverdict, fun hexit => ?_⟩
    rw [Run.exitCode, Run.exitCode, hverdict, hexit]

theorem Settled.completes {run : Run} (h : Settled arguments files colours .unbounded run)
    (hloaded : Loaded arguments files job) :
    ∃ text, job.config.output.Asks colours job.events text ∧
      run.writer.accepted = text.toUTF8 ∧ run.verdict = .ok job.stats := by
  obtain ⟨text, hasks, hwritten⟩ := h.written job hloaded
  obtain ⟨haccepted, -, hverdict⟩ := hwritten.complete nofun
  exact ⟨text, hasks, haccepted.trans (ByteArray.empty_append.trans ByteArray.empty_append),
    hverdict⟩

private def defaultArguments : Arguments where
  old := "old.yaml"
  new := "new.yaml"
  config := none
  noColor := false
  format := none
  verbose := false
  exitCode := true

private def jsonArguments : Arguments := { defaultArguments with config := some "kdiff.toml" }

private def paintedArguments : Arguments := { jsonArguments with format := some .text }

private def plainArguments : Arguments := { paintedArguments with noColor := true }

private def goneArguments : Arguments := { defaultArguments with old := "gone.yaml" }

private def sampleConfig : String :=
  "[identity]\nname_key = \"id\"\ntype_key = \"id\"\n[output]\nformat = \"json\"\n"

private def samplePod (items : String) : String :=
  "\x7bapiVersion: v1, kind: Pod, metadata: \x7bname: a\x7d, spec: [" ++ items ++ "]\x7d\n"

private def sampleFiles : FileSystem
  | "old.yaml" => .ok (.file (samplePod "\x7bid: x\x7d, \x7bid: y\x7d").toUTF8)
  | "new.yaml" =>
    .ok (.file (samplePod "\x7bid: y\x7d, \x7bid: x\x7d" ++
      "---\n\x7bapiVersion: v1, kind: Namespace, metadata: \x7bname: b\x7d\x7d\n").toUTF8)
  | "kdiff.toml" => .ok (.file sampleConfig.toUTF8)
  | _ => .error .notFound

private def sampleRule : IdentityRule := { nameKey := "id", typeKey := "id" }

private def sampleLine : String :=
  "\x7b\"event\":\"object_added\",\"object\":\"Namespace/b\"\x7d\n"

private theorem exists_ok_of_any {ε α : Type} {result : Except ε α} {p : α → Prop}
    [DecidablePred p] (h : result.toOption.any (fun x => decide (p x)) = true) :
    ∃ x, result = .ok x ∧ p x := by
  cases result with
  | error fault => cases h
  | ok x => exact ⟨x, rfl, of_decide_eq_true h⟩

private theorem sample_objects : ∃ objects,
    loadBoth sampleFiles defaultArguments = .ok objects ∧
      String.join ((Report.events sampleRule objects.1 objects.2).map fun e =>
        JsonReport.text e ++ "\n") = sampleLine ∧
      String.join ((Report.events sampleRule objects.1 objects.2).map (TextReport.lines .ansi)) =
        "\x1b[92m+ Namespace b (added)\x1b[0m\n" ∧
      String.join ((Report.events sampleRule objects.1 objects.2).map (TextReport.lines .plain)) =
        "+ Namespace b (added)\n" ∧
      Report.stats sampleRule objects.1 objects.2 = { added := 1, unchanged := 1 } ∧
      Report.stats {} objects.1 objects.2 = { added := 1, changed := 1 } :=
  exists_ok_of_any (by decide +kernel)

private theorem sample_comparison :
    SameComparison jsonArguments plainArguments sampleFiles sampleFiles := by
  refine ⟨fun side => ?_, fun _ => rfl, ?_⟩
  · cases side <;> rfl
  · have haccepted : (Config.parse sampleConfig).toOption.isSome = true := by decide +kernel
    have hread : sampleFiles.read "kdiff.toml" = .ok sampleConfig := read_of_text rfl
    cases hparse : Config.parse sampleConfig with
    | error cause =>
      rw [hparse] at haccepted
      cases haccepted
    | ok accepted =>
      obtain ⟨entries, hentries⟩ := exists_entries_of_parse hparse
      exact ⟨entries, entries, .file rfl hread hentries hparse, .file rfl hread hentries hparse,
        rfl⟩

private theorem sample_missing :
    FirstFailure goneArguments sampleFiles Stage.all (.missingFile "gone.yaml") := by
  have hmissing : sampleFiles (goneArguments.path .old) = .error .notFound := rfl
  refine ⟨[.configure], .find .old, _, rfl, .missing hmissing, List.forall_mem_singleton.mpr ?_⟩
  intro other h
  cases h with
  | unreadableConfig hasked _ => cases hasked
  | invalidConfig hasked _ _ => cases hasked

/-- The items are matched by the configured rule only. The configuration asks for JSON, the flags
for text and for plain text, and the numbers are the same. When the report does not fit, a part of
it is written, and when a file is missing, nothing is. -/
theorem run_settled_namespace :
    (jsonArguments.run sampleFiles true .unbounded).writer.accepted = sampleLine.toUTF8 ∧
      (paintedArguments.run sampleFiles true .unbounded).writer.accepted =
        "\x1b[92m+ Namespace b (added)\x1b[0m\n".toUTF8 ∧
      (plainArguments.run sampleFiles true .unbounded).writer.accepted =
        "+ Namespace b (added)\n".toUTF8 ∧
      SameComparison jsonArguments plainArguments sampleFiles sampleFiles ∧
      (jsonArguments.run sampleFiles true .unbounded).verdict =
        (plainArguments.run sampleFiles true .unbounded).verdict ∧
      (plainArguments.run sampleFiles true .unbounded).verdict =
        .ok { added := 1, unchanged := 1 } ∧
      (defaultArguments.run sampleFiles true .unbounded).verdict =
        .ok { added := 1, changed := 1 } ∧
      (plainArguments.run sampleFiles true (.bounded 5 "full")).writer.accepted =
        "+ Nam".toUTF8 ∧
      (plainArguments.run sampleFiles true (.bounded 5 "full")).refusal? = some "full" ∧
      FirstFailure goneArguments sampleFiles Stage.all (.missingFile "gone.yaml") ∧
      (goneArguments.run sampleFiles true .unbounded).writer = .unbounded := by
  obtain ⟨⟨old, new⟩, hobjects, hline, hpaintedText, hplainText, hstats, hdefaultStats⟩ :=
    sample_objects
  have hjson := run_settled jsonArguments sampleFiles true .unbounded
  have hpainted := run_settled paintedArguments sampleFiles true .unbounded
  have hplain := run_settled plainArguments sampleFiles true .unbounded
  have hdefault := run_settled defaultArguments sampleFiles true .unbounded
  have hbounded := run_settled plainArguments sampleFiles true (.bounded 5 "full")
  have hgone := run_settled goneArguments sampleFiles true .unbounded
  have hjsonJob : Loaded jsonArguments sampleFiles
      ⟨⟨sampleRule, { format := .json }⟩, old, new⟩ :=
    loaded_of_settings (by decide +kernel) hobjects
  have hpaintedJob : Loaded paintedArguments sampleFiles
      ⟨⟨sampleRule, { format := .text }⟩, old, new⟩ :=
    loaded_of_settings (by decide +kernel) hobjects
  have hplainJob : Loaded plainArguments sampleFiles
      ⟨⟨sampleRule, { color := false, format := .text }⟩, old, new⟩ :=
    loaded_of_settings (by decide +kernel) hobjects
  have hdefaultJob : Loaded defaultArguments sampleFiles ⟨{}, old, new⟩ :=
    loaded_of_settings rfl hobjects
  obtain ⟨_, hasksJson, hacceptedJson, _⟩ := hjson.completes hjsonJob
  rw [(hasksJson.json rfl).trans hline] at hacceptedJson
  obtain ⟨_, hasksPainted, hacceptedPainted, _⟩ := hpainted.completes hpaintedJob
  rw [(hasksPainted.painted rfl rfl rfl).trans hpaintedText] at hacceptedPainted
  obtain ⟨_, hasksPlain, hacceptedPlain, hverdict⟩ := hplain.completes hplainJob
  rw [(hasksPlain.plain rfl (.inl rfl)).trans hplainText] at hacceptedPlain
  obtain ⟨_, _, _, hverdictDefault⟩ := hdefault.completes hdefaultJob
  have hsame := hjson.comparable plainArguments sampleFiles true .unbounded sample_comparison
    (hjson.unbounded rfl) (hplain.unbounded rfl)
  obtain ⟨_, hasksCut, hwritten⟩ := hbounded.written _ hplainJob
  rw [(hasksCut.plain rfl (.inl rfl)).trans hplainText] at hwritten
  obtain ⟨hacceptedCut, hrefusal⟩ := hwritten.cutOff 5 rfl (by decide)
  exact ⟨hacceptedJson, hacceptedPainted, hacceptedPlain, sample_comparison, hsame.1,
    hverdict.trans (congrArg Except.ok hstats),
    hverdictDefault.trans (congrArg Except.ok hdefaultStats),
    hacceptedCut.trans (by decide +kernel), hrefusal, sample_missing,
    (hgone.failed _ sample_missing).2⟩

end ManifestDiff
