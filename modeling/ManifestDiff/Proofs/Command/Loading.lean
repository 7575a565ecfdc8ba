import ManifestDiff.Command.Run
import ManifestDiff.Proofs.Config
/-!
# Loading in stages

A run takes its stages in a fixed order: the configuration, whether the two files are there, and
then one file after the other, its text and its objects. What is told is why the first stage fails
that does, whatever is wrong with the later ones. When no stage fails, everything is loaded.
-/
namespace ManifestDiff

inductive Side where
  | old
  | new
deriving DecidableEq

def Arguments.path (arguments : Arguments) : Side → String
  | .old => arguments.old
  | .new => arguments.new

inductive Stage where
  | configure
  | find (side : Side)
  | read (side : Side)
  | parse (side : Side)
deriving DecidableEq

def Stage.all : List Stage :=
  [.configure, .find .old, .find .new, .read .old, .parse .old, .read .new, .parse .new]

variable (arguments : Arguments) (files : FileSystem)

/-- The stage cannot be done, for this reason. -/
inductive Fails : Stage → Failure → Prop
  | unreadableConfig {path : String} {cause : FileError} (hasked : arguments.config = some path)
    (h : files.read path = .error cause) : Fails .configure (.unreadableConfig path cause)
  | invalidConfig {path text : String} {cause : ConfigError}
    (hasked : arguments.config = some path) (hread : files.read path = .ok text)
    (h : Config.parse text = .error cause) : Fails .configure (.invalidConfig path cause)
  | missing {side : Side} (h : files (arguments.path side) = .error .notFound) :
    Fails (.find side) (.missingFile (arguments.path side))
  | inaccessible {side : Side} {cause : FileError} (hcause : cause ≠ .notFound)
    (h : files (arguments.path side) = .error cause) :
    Fails (.find side) (.inaccessibleFile (arguments.path side) cause)
  | unreadable {side : Side} {cause : FileError}
    (h : files.read (arguments.path side) = .error cause) :
    Fails (.read side) (.unreadableFile (arguments.path side) cause)
  | invalidManifest {side : Side} {text : String} {cause : ManifestError}
    (hread : files.read (arguments.path side) = .ok text)
    (h : Manifest.parseObjects text = .error cause) :
    Fails (.parse side) (.invalidManifest (arguments.path side) cause)

/-- Why the first of the stages fails that does. -/
def FirstFailure (stages : List Stage) (failure : Failure) : Prop :=
  ∃ before stage after, stages = before ++ stage :: after ∧ Fails arguments files stage failure ∧
    ∀ earlier ∈ before, ∀ other, ¬Fails arguments files earlier other

/-- The entries of the configuration that the arguments name; without one there are none. -/
inductive Configured : Toml.Entries → Prop
  | default (h : arguments.config = none) : Configured []
  | file {path text : String} {entries : Toml.Entries} {accepted : Config}
    (hasked : arguments.config = some path) (hread : files.read path = .ok text)
    (hentries : Toml.read? text = some entries) (h : Config.parse text = .ok accepted) :
    Configured entries

/-- The settings of a run, given those of its configuration: a flag counts more. -/
structure Resolved (base config : Config) : Prop where
  identity : config.identity = base.identity
  noColor : arguments.noColor = true → config.output.color = false
  color : arguments.noColor = false → config.output.color = base.output.color
  flag : ∀ format, arguments.format = some format → config.output.format = format
  format : arguments.format = none → config.output.format = base.output.format

structure Loaded (job : Job) : Prop where
  config : ∃ entries base, Configured arguments files entries ∧ Config.Describes entries base ∧
    Resolved arguments base job.config
  old : ∃ text, files.read arguments.old = .ok text ∧ Manifest.parseObjects text = .ok job.old
  new : ∃ text, files.read arguments.new = .ok text ∧ Manifest.parseObjects text = .ok job.new

variable {arguments files} {stage : Stage} {stages : List Stage} {failure : Failure}

theorem firstFailure_nil : ¬FirstFailure arguments files [] failure := by
  rintro ⟨before, stage, after, hstages, -⟩
  exact List.append_ne_nil_of_right_ne_nil before (List.cons_ne_nil stage after) hstages.symm

theorem firstFailure_cons :
    FirstFailure arguments files (stage :: stages) failure ↔
      Fails arguments files stage failure ∨
        (∀ other, ¬Fails arguments files stage other) ∧
          FirstFailure arguments files stages failure := by
  constructor
  · rintro ⟨before, first, after, hstages, hfails, hearlier⟩
    cases before with
    | nil =>
      cases hstages
      exact .inl hfails
    | cons head before =>
      cases hstages
      obtain ⟨hhead, hbefore⟩ := List.forall_mem_cons.mp hearlier
      exact .inr ⟨hhead, before, first, after, rfl, hfails, hbefore⟩
  · rintro (hfails | ⟨hhead, before, first, after, rfl, hfails, hbefore⟩)
    · exact ⟨[], stage, stages, rfl, hfails, List.forall_mem_nil _⟩
    · exact ⟨stage :: before, first, after, rfl, hfails, List.forall_mem_cons.mpr ⟨hhead, hbefore⟩⟩

theorem bind_eq_firstFailure_iff {α β : Type} {done : Except Failure α}
    {next : α → Except Failure β}
    (hstage : ∀ other, done = .error other ↔ Fails arguments files stage other)
    (hnext : ∀ value, done = .ok value →
      (next value = .error failure ↔ FirstFailure arguments files stages failure)) :
    (done >>= next) = .error failure ↔
      FirstFailure arguments files (stage :: stages) failure := by
  rw [firstFailure_cons, ← hstage, bind_eq_error_iff]
  simp only [← hstage]
  cases done with
  | error fault => simp
  | ok value => simp [hnext value rfl]

private theorem mapError_eq_error_iff {ε ε' α : Type} {x : Except ε α} {f : ε → ε'} {fault : ε'} :
    x.mapError f = .error fault ↔ ∃ cause, x = .error cause ∧ f cause = fault := by
  cases x <;> simp [Except.mapError]

private theorem mapError_eq_ok_iff {ε ε' α : Type} {x : Except ε α} {f : ε → ε'} {value : α} :
    x.mapError f = .ok value ↔ x = .ok value := by
  cases x <;> simp [Except.mapError]

theorem settings_eq_error_iff :
    arguments.settings files = .error failure ↔ Fails arguments files .configure failure := by
  rw [Arguments.settings]
  constructor
  · intro h
    cases hasked : arguments.config with
    | none =>
      rw [hasked] at h
      cases h
    | some path =>
      rw [hasked] at h
      simp only [bind_eq_error_iff, mapError_eq_error_iff, mapError_eq_ok_iff, pure, Except.pure,
        reduceCtorEq, and_false, exists_false, or_false] at h
      rcases h with ⟨cause, hread, rfl⟩ | ⟨text, hread, cause, hparse, rfl⟩
      · exact .unreadableConfig hasked hread
      · exact .invalidConfig hasked hread hparse
  · intro h
    cases h with
    | unreadableConfig hasked h =>
      rw [hasked]
      simp [h, Except.mapError, bind, Except.bind]
    | invalidConfig hasked hread h =>
      rw [hasked]
      simp [hread, h, Except.mapError, bind, Except.bind]

theorem checkExists_eq_error_iff (side : Side) :
    checkExists files (arguments.path side) = .error failure ↔
      Fails arguments files (.find side) failure := by
  constructor
  · intro h
    unfold checkExists at h
    split at h
    next => cases h
    next hmissing =>
      cases h
      exact .missing hmissing
    next cause hcause herror =>
      cases h
      exact .inaccessible hcause herror
  · intro h
    cases h with
    | missing h => simp [checkExists, h]
    | inaccessible hcause h =>
      rw [checkExists, h]
      split
      next hok => cases hok
      next hmissing => exact absurd (Except.error.inj hmissing) hcause
      next hother => rw [Except.error.inj hother]

theorem read_eq_error_iff (side : Side) :
    (files.read (arguments.path side)).mapError (.unreadableFile (arguments.path side)) =
        .error failure ↔
      Fails arguments files (.read side) failure := by
  rw [mapError_eq_error_iff]
  constructor
  · rintro ⟨cause, h, rfl⟩
    exact .unreadable h
  · intro h
    cases h with
    | unreadable h => exact ⟨_, h, rfl⟩

theorem parse_eq_error_iff (side : Side) {text : String}
    (hread : files.read (arguments.path side) = .ok text) :
    (Manifest.parseObjects text).mapError (.invalidManifest (arguments.path side)) =
        .error failure ↔
      Fails arguments files (.parse side) failure := by
  rw [mapError_eq_error_iff]
  constructor
  · rintro ⟨cause, h, rfl⟩
    exact .invalidManifest hread h
  · intro h
    cases h with
    | invalidManifest hread' h =>
      rw [hread] at hread'
      cases hread'
      exact ⟨_, h, rfl⟩

theorem read_of_text {path text : String} (h : files path = .ok (.file text.toUTF8)) :
    files.read path = .ok text := by
  have hvalid : String.fromUTF8? text.toUTF8 = some text := dif_pos text.isValidUTF8
  rw [FileSystem.read, h]
  simp only [bind, Except.bind, hvalid]
  rfl

namespace Loading

variable {α β : Type}

@[simp] theorem result_bind (first : Loading α) (next : α → Loading β) :
    (first >>= next).result = first.result >>= fun value => (next value).result := by
  change (first.andThen next).result = _
  rw [andThen]
  cases first.result <;> rfl

@[simp] theorem result_pure (value : α) : (pure value : Loading α).result = .ok value := rfl

@[simp] theorem result_silent (result : Except Failure α) : (silent result).result = result := rfl

@[simp] theorem result_note (n : Note) : (note n).result = .ok () := rfl

end Loading

theorem result_loadManifest (files : FileSystem) (path : String) :
    (loadManifest files path).result =
      (files.read path).mapError (.unreadableFile path) >>= fun text =>
        (Manifest.parseObjects text).mapError (.invalidManifest path) := by
  simp only [loadManifest, Loading.result_bind, Loading.result_silent, Loading.result_note,
    Loading.result_pure]
  refine congrArg _ (funext fun text => ?_)
  have hobjects : Manifest.parseObjects text =
      Manifest.parseDocuments text >>= Manifest.objectsOf := rfl
  rw [hobjects]
  cases Manifest.parseDocuments text with
  | error cause => rfl
  | ok documents =>
    change ((Manifest.objectsOf documents).mapError _ >>= _) =
      (Manifest.objectsOf documents).mapError _
    cases Manifest.objectsOf documents <;> rfl

theorem result_loadManifest_eq_ok_iff {path : String} {objects : List Object} :
    (loadManifest files path).result = .ok objects ↔
      ∃ text, files.read path = .ok text ∧ Manifest.parseObjects text = .ok objects := by
  rw [result_loadManifest]
  simp only [bind_eq_ok_iff, mapError_eq_ok_iff]

def loadBoth (files : FileSystem) (arguments : Arguments) :
    Except Failure (List Object × List Object) := do
  checkExists files arguments.old
  checkExists files arguments.new
  let old ← (loadManifest files arguments.old).result
  let new ← (loadManifest files arguments.new).result
  return (old, new)

theorem result_load (files : FileSystem) (arguments : Arguments) :
    (Job.load files arguments).result = arguments.settings files >>= fun config =>
      (loadBoth files arguments).map fun objects => ⟨config, objects.1, objects.2⟩ := by
  simp only [Job.load, Loading.result_bind, Loading.result_silent, Loading.result_pure]
  refine congrArg _ (funext fun config => ?_)
  rw [loadBoth]
  cases checkExists files arguments.old with
  | error _ => rfl
  | ok _ =>
    cases checkExists files arguments.new with
    | error _ => rfl
    | ok _ =>
      cases (loadManifest files arguments.old).result with
      | error _ => rfl
      | ok _ => cases (loadManifest files arguments.new).result <;> rfl

private theorem loadBoth_eq_error_iff :
    loadBoth files arguments = .error failure ↔ FirstFailure arguments files
      [.find .old, .find .new, .read .old, .parse .old, .read .new, .parse .new] failure := by
  rw [loadBoth]
  simp only [result_loadManifest, bind_assoc]
  refine bind_eq_firstFailure_iff (fun _ => checkExists_eq_error_iff .old) fun _ _ => ?_
  refine bind_eq_firstFailure_iff (fun _ => checkExists_eq_error_iff .new) fun _ _ => ?_
  refine bind_eq_firstFailure_iff (fun _ => read_eq_error_iff .old) fun text htext => ?_
  refine bind_eq_firstFailure_iff
    (fun _ => parse_eq_error_iff .old ((mapError_eq_ok_iff).mp htext)) fun old _ => ?_
  refine bind_eq_firstFailure_iff (fun _ => read_eq_error_iff .new) fun text htext => ?_
  refine bind_eq_firstFailure_iff
    (fun _ => parse_eq_error_iff .new ((mapError_eq_ok_iff).mp htext)) fun new _ => ?_
  exact iff_of_false nofun firstFailure_nil

/-- What is told when a run does not load everything is why its first stage failed that did. -/
theorem load_eq_error_iff :
    (Job.load files arguments).result = .error failure ↔
      FirstFailure arguments files Stage.all failure := by
  rw [result_load]
  refine bind_eq_firstFailure_iff (fun _ => settings_eq_error_iff) fun config _ => ?_
  rw [← loadBoth_eq_error_iff]
  cases loadBoth files arguments <;> simp [Except.map]

theorem exists_entries_of_parse {text : String} {base : Config}
    (h : Config.parse text = .ok base) : ∃ entries, Toml.read? text = some entries := by
  rw [Config.parse] at h
  cases hentries : Toml.read? text with
  | none =>
    rw [hentries] at h
    cases h
  | some entries => exact ⟨entries, rfl⟩

def Arguments.resolve (arguments : Arguments) (base : Config) : Config :=
  { base with
    output := {
      color := base.output.color && !arguments.noColor
      format := arguments.format.getD base.output.format } }

theorem resolved_resolve (arguments : Arguments) (base : Config) :
    Resolved arguments base (arguments.resolve base) where
  identity := rfl
  noColor h := by rw [Arguments.resolve, h, Bool.not_true, Bool.and_false]
  color h := by rw [Arguments.resolve, h, Bool.not_false, Bool.and_true]
  flag format h := by rw [Arguments.resolve, h, Option.getD_some]
  format h := by rw [Arguments.resolve, h, Option.getD_none]

theorem Resolved.eq_resolve {base config : Config} (h : Resolved arguments base config) :
    config = arguments.resolve base := by
  obtain ⟨hidentity, hnoColor, hcolor, hflag, hformat⟩ := h
  obtain ⟨identity, ⟨color, format⟩⟩ := config
  have hcolor' : color = (base.output.color && !arguments.noColor) := by
    cases hflags : arguments.noColor with
    | true => rw [Bool.not_true, Bool.and_false, ← hnoColor hflags]
    | false => rw [Bool.not_false, Bool.and_true, ← hcolor hflags]
  have hformat' : format = arguments.format.getD base.output.format := by
    cases hflags : arguments.format with
    | none => exact hformat hflags
    | some flag => exact hflag flag hflags
  rw [Arguments.resolve, ← hcolor', ← hformat', ← hidentity]

theorem describes_default : Config.Describes [] {} := Config.describes_of_foldlM rfl

theorem settings_eq_ok_iff {config : Config} :
    arguments.settings files = .ok config ↔ ∃ entries base,
      Configured arguments files entries ∧ Config.Describes entries base ∧
        arguments.resolve base = config := by
  rw [Arguments.settings]
  constructor
  · intro h
    cases hasked : arguments.config with
    | none =>
      rw [hasked] at h
      exact ⟨[], {}, .default hasked, describes_default, Except.ok.inj h⟩
    | some path =>
      rw [hasked] at h
      simp only [bind_eq_ok_iff, mapError_eq_ok_iff] at h
      obtain ⟨text, hread, base, hparse, hconfig⟩ := h
      obtain ⟨entries, hentries⟩ := exists_entries_of_parse hparse
      exact ⟨entries, base, .file hasked hread hentries hparse,
        Config.describes_of_parse hentries hparse, Except.ok.inj hconfig⟩
  · rintro ⟨entries, base, hconfigured, hdescribes, rfl⟩
    cases hconfigured with
    | default hasked =>
      rw [hasked, hdescribes.unique describes_default]
      rfl
    | file hasked hread hentries hparse =>
      rw [hasked, hdescribes.unique (Config.describes_of_parse hentries hparse)]
      simp only [bind_eq_ok_iff, mapError_eq_ok_iff]
      exact ⟨_, hread, _, hparse, rfl⟩

private theorem checkExists_of_read {path text : String} (h : files.read path = .ok text) :
    checkExists files path = .ok () := by
  rw [FileSystem.read, bind_eq_ok_iff] at h
  obtain ⟨entry, hentry, _⟩ := h
  rw [checkExists, hentry]

theorem load_eq_ok_iff {job : Job} :
    (Job.load files arguments).result = .ok job ↔ Loaded arguments files job := by
  rw [result_load, bind_eq_ok_iff]
  constructor
  · rintro ⟨config, hconfig, hmap⟩
    obtain ⟨⟨old, new⟩, hboth, rfl⟩ := (map_eq_ok_iff).mp hmap
    simp only [loadBoth, bind_eq_ok_iff, result_loadManifest_eq_ok_iff, pure, Except.pure,
      Except.ok.injEq, Prod.mk.injEq] at hboth
    obtain ⟨_, _, _, _, _, hold, _, hnew, rfl, rfl⟩ := hboth
    obtain ⟨entries, base, hconfigured, hdescribes, rfl⟩ := (settings_eq_ok_iff).mp hconfig
    exact ⟨⟨entries, base, hconfigured, hdescribes, resolved_resolve arguments base⟩, hold, hnew⟩
  · rintro ⟨⟨entries, base, hconfigured, hdescribes, hresolved⟩, hold, hnew⟩
    refine ⟨job.config, (settings_eq_ok_iff).mpr
      ⟨entries, base, hconfigured, hdescribes, hresolved.eq_resolve.symm⟩, ?_⟩
    have hboth : loadBoth files arguments = .ok (job.old, job.new) := by
      obtain ⟨text, hread, hparse⟩ := hold
      obtain ⟨text', hread', hparse'⟩ := hnew
      rw [loadBoth, checkExists_of_read hread, checkExists_of_read hread',
        (result_loadManifest_eq_ok_iff).mpr ⟨text, hread, hparse⟩,
        (result_loadManifest_eq_ok_iff).mpr ⟨text', hread', hparse'⟩]
      rfl
    rw [hboth]
    rfl

theorem loaded_of_settings {config : Config} {old new : List Object}
    (hconfig : arguments.settings files = .ok config)
    (hobjects : loadBoth files arguments = .ok (old, new)) :
    Loaded arguments files ⟨config, old, new⟩ := by
  rw [← load_eq_ok_iff, result_load, hconfig, hobjects]
  rfl

theorem exists_loaded (h : ∀ stage other, ¬Fails arguments files stage other) :
    ∃ job, Loaded arguments files job := by
  cases hload : (Job.load files arguments).result with
  | ok job => exact ⟨job, (load_eq_ok_iff).mp hload⟩
  | error failure =>
    obtain ⟨_, stage, _, _, hfails, _⟩ := (load_eq_error_iff).mp hload
    exact absurd hfails (h stage failure)

end ManifestDiff
