import ManifestDiff.Config
import ManifestDiff.Proofs.Node.WellFormed
/-!
# What a configuration says

A field of the configuration has the value that its section gives it, or its default. Of several
values under one name the last one counts. A section that is written as an array gives its values to
the fields in their order.
-/
namespace ManifestDiff

/-- The last value under a name. -/
def Toml.lastValue? (name : String) : Toml.Entries → Option Toml.Value
  | [] => none
  | (key, value) :: rest => (lastValue? name rest).or (if key = name then some value else none)

def Toml.Value.given? (name : String) (position : Nat) : Toml.Value → Option Toml.Value
  | .table _ entries => Toml.lastValue? name entries
  | .array items | .tables items => items[position]?
  | _ => none

/-- A field is given a value that stands for this one, or it has its default. -/
inductive Given {α : Type} (stands : Toml.Value → α → Prop) (default : α) :
    Option Toml.Value → α → Prop
  | absent : Given stands default none default
  | present {value : Toml.Value} {x : α} (h : stands value x) :
    Given stands default (some value) x

inductive IsString : Toml.Value → String → Prop
  | intro (s : String) : IsString (.string s) s

inductive IsBoolean : Toml.Value → Bool → Prop
  | intro (b : Bool) : IsBoolean (.boolean b) b

def OutputFormat.IsCalled (name : String) : OutputFormat → Prop
  | .text => name = "text"
  | .json => name = "json"

/-- A format is named, or its name is the only key of a table. -/
inductive IsFormat : Toml.Value → OutputFormat → Prop
  | named {name : String} {format : OutputFormat} (h : format.IsCalled name) :
    IsFormat (.string name) format
  | keyed {name : String} {format : OutputFormat} (h : format.IsCalled name)
    (origin : Toml.Origin) (value : Toml.Value) : IsFormat (.table origin [(name, value)]) format

structure IdentityRule.Describes (value? : Option Toml.Value) (rule : IdentityRule) : Prop where
  nameKey : Given IsString "name" (value?.bind (·.given? "name_key" 0)) rule.nameKey
  typeKey : Given IsString "image" (value?.bind (·.given? "type_key" 1)) rule.typeKey
  label : Given IsString "container" (value?.bind (·.given? "label" 2)) rule.label

structure OutputSettings.Describes (value? : Option Toml.Value) (settings : OutputSettings) :
    Prop where
  color : Given IsBoolean true (value?.bind (·.given? "color" 0)) settings.color
  format : Given IsFormat .text (value?.bind (·.given? "format" 1)) settings.format

structure Config.Describes (entries : Toml.Entries) (config : Config) : Prop where
  identity : IdentityRule.Describes (Toml.lastValue? "identity" entries) config.identity
  output : OutputSettings.Describes (Toml.lastValue? "output" entries) config.output

variable {α : Type} {stands stands' : Toml.Value → α → Prop} {default x : α}
  {value? : Option Toml.Value}

theorem Given.imp (h : Given stands default value? x)
    (himp : ∀ value x, stands value x → stands' value x) : Given stands' default value? x := by
  cases h with
  | absent => exact .absent
  | present h => exact .present (himp _ _ h)

theorem Given.unique {y : α} (h : Given stands default value? x)
    (hstands : ∀ value x y, stands value x → stands value y → x = y)
    (h' : Given stands default value? y) : x = y := by
  cases h with
  | absent =>
    cases h'
    rfl
  | present h =>
    cases h' with
    | present h' => exact hstands _ _ _ h h'

theorem Given.eq_default (h : Given stands default none x) : x = default := by
  cases h
  rfl

/-- A field that is read from the entries one by one has the last value that it is given. -/
theorem given_of_foldlM {α β ε : Type} {step : β → String × Toml.Value → Except ε β}
    {init result : β} {entries : Toml.Entries} (name : String) (read : Toml.Value → Except ε α)
    (get : β → α) {put : β → α → β}
    (hput : ∀ b value, step b (name, value) = (read value >>= fun x => pure (put b x)))
    (hget : ∀ b x, get (put b x) = x)
    (hkeep : ∀ b key value b', step b (key, value) = .ok b' → key ≠ name → get b' = get b)
    (h : entries.foldlM step init = .ok result) :
    Given (fun value x => read value = .ok x) (get init) (Toml.lastValue? name entries)
      (get result) := by
  induction entries generalizing init with
  | nil =>
    cases h
    exact .absent
  | cons entry rest ih =>
    obtain ⟨key, value⟩ := entry
    rw [List.foldlM_cons, bind_eq_ok_iff] at h
    obtain ⟨next, hnext, hrest⟩ := h
    have hgiven := ih hrest
    rw [Toml.lastValue?]
    cases hlater : Toml.lastValue? name rest with
    | some later =>
      rw [hlater] at hgiven
      cases hgiven with
      | present hread => exact .present hread
    | none =>
      rw [hlater] at hgiven
      rw [Option.none_or, hgiven.eq_default]
      split
      next hkey =>
        subst hkey
        rw [hput, bind_eq_ok_iff] at hnext
        obtain ⟨x, hread, hnext⟩ := hnext
        cases hnext
        rw [hget]
        exact .present hread
      next hkey =>
        rw [hkeep init key value next hnext hkey]
        exact .absent

section Sections

variable {name : String} {names : List String} {items : List Toml.Value}

private theorem lastValue?_of_not_mem {entries : Toml.Entries} (h : name ∉ entries.map Prod.fst) :
    Toml.lastValue? name entries = none := by
  induction entries with
  | nil => rfl
  | cons entry rest ih =>
    rw [List.map_cons, List.mem_cons, not_or] at h
    rw [Toml.lastValue?, ih h.2, if_neg (Ne.symm h.1), Option.none_or]

private theorem lastValue?_zip (hnames : names.Nodup) {i : Nat} (h : names[i]? = some name) :
    Toml.lastValue? name (names.zip items) = items[i]? := by
  induction names generalizing i items with
  | nil => simp at h
  | cons first names ih =>
    obtain ⟨hfirst, hrest⟩ := List.nodup_cons.mp hnames
    cases items with
    | nil => simp [Toml.lastValue?]
    | cons item items =>
      rw [List.zip_cons_cons, Toml.lastValue?]
      cases i with
      | zero =>
        cases h
        have hlater : name ∉ (names.zip items).map Prod.fst := by
          intro hm
          obtain ⟨entry, hentry, rfl⟩ := List.mem_map.mp hm
          exact hfirst (List.of_mem_zip hentry).1
        rw [lastValue?_of_not_mem hlater, if_pos rfl, Option.none_or, List.getElem?_cons_zero]
      | succ i =>
        rw [List.getElem?_cons_succ] at h
        have hname : first ≠ name := fun hname => hfirst (hname ▸ List.mem_of_getElem? h)
        rw [ih hrest h, if_neg hname, Option.or_none, List.getElem?_cons_succ]

private theorem given?_eq {value : Toml.Value} {fields : Toml.Entries} (hnames : names.Nodup)
    (hfields : value.fields? names = some fields)
    {i : Nat} (h : names[i]? = some name) (hprivate : name ≠ "$__toml_private_datetime") :
    value.given? name i = Toml.lastValue? name fields := by
  cases value with
  | table origin entries =>
    cases hfields
    rfl
  | array items =>
    cases hfields
    exact (lastValue?_zip hnames h).symm
  | tables items =>
    cases hfields
    exact (lastValue?_zip hnames h).symm
  | datetime text =>
    cases hfields
    simp [Toml.lastValue?, Toml.Value.given?, hprivate.symm]
  | _ => cases hfields

end Sections

private theorem isString_of_stringOf {value : Toml.Value} {s : String}
    (h : stringOf value = .ok s) : IsString value s := by
  cases value with
  | string _ =>
    cases h
    exact .intro s
  | _ => cases h

private theorem isBoolean_of_booleanOf {value : Toml.Value} {b : Bool}
    (h : booleanOf value = .ok b) : IsBoolean value b := by
  cases value with
  | boolean _ =>
    cases h
    exact .intro b
  | _ => cases h

private theorem OutputFormat.isCalled_of_ofKey {name : String} {format : OutputFormat}
    (h : ofKey name = .ok format) : format.IsCalled name := by
  rw [ofKey] at h
  split at h
  next found hfound =>
    cases h
    have hname := List.find?_some hfound
    cases format <;> exact (beq_iff_eq.mp hname).symm
  next => cases h

private theorem OutputFormat.isFormat_of_ofToml {value : Toml.Value} {format : OutputFormat}
    (h : OutputFormat.ofToml value = .ok format) : IsFormat value format := by
  cases value with
  | string name => exact .named (isCalled_of_ofKey h)
  | table origin entries =>
    match entries with
    | [] => cases h
    | [(name, value)] =>
      rw [ofToml, bind_eq_ok_iff] at h
      obtain ⟨key, hkey, h⟩ := h
      obtain ⟨_, _, h⟩ := (bind_eq_ok_iff).mp h
      cases h
      exact .keyed (isCalled_of_ofKey hkey) origin value
    | _ :: _ :: _ => cases h
  | _ => cases h

private theorem IdentityRule.setField_keeps {rule next : IdentityRule} {key : String}
    {value : Toml.Value} (h : rule.setField (key, value) = .ok next) :
    (key ≠ "name_key" → next.nameKey = rule.nameKey) ∧
      (key ≠ "type_key" → next.typeKey = rule.typeKey) ∧
      (key ≠ "label" → next.label = rule.label) := by
  unfold setField at h
  split at h
  case h_4 =>
    cases h
    simp
  all_goals
    obtain ⟨s, _, hnext⟩ := (bind_eq_ok_iff).mp h
    cases hnext
    simp_all

private theorem OutputSettings.setField_keeps {settings next : OutputSettings} {key : String}
    {value : Toml.Value} (h : settings.setField (key, value) = .ok next) :
    (key ≠ "color" → next.color = settings.color) ∧
      (key ≠ "format" → next.format = settings.format) := by
  unfold setField at h
  split at h
  case h_3 => cases h
  all_goals
    obtain ⟨s, _, hnext⟩ := (bind_eq_ok_iff).mp h
    cases hnext
    simp_all

private theorem Config.setField_keeps {config next : Config} {key : String} {value : Toml.Value}
    (h : config.setField (key, value) = .ok next) :
    (key ≠ "identity" → next.identity = config.identity) ∧
      (key ≠ "output" → next.output = config.output) := by
  unfold setField at h
  split at h
  case h_3 => cases h
  all_goals
    obtain ⟨s, _, hnext⟩ := (bind_eq_ok_iff).mp h
    cases hnext
    simp_all

private theorem IdentityRule.describes_of_ofToml {value : Toml.Value} {rule : IdentityRule}
    (h : IdentityRule.ofToml value = .ok rule) : IdentityRule.Describes (some value) rule := by
  rw [ofToml] at h
  split at h
  next fields hfields =>
    have hnames : ["name_key", "type_key", "label"].Nodup := by decide
    have hname := given_of_foldlM "name_key" stringOf nameKey (fun _ _ => rfl) (fun _ _ => rfl)
      (fun _ _ _ _ h => (setField_keeps h).1) h
    have htype := given_of_foldlM "type_key" stringOf typeKey (fun _ _ => rfl) (fun _ _ => rfl)
      (fun _ _ _ _ h => (setField_keeps h).2.1) h
    have hlabel := given_of_foldlM "label" stringOf label (fun _ _ => rfl) (fun _ _ => rfl)
      (fun _ _ _ _ h => (setField_keeps h).2.2) h
    rw [← given?_eq hnames hfields (i := 0) rfl (by decide)] at hname
    rw [← given?_eq hnames hfields (i := 1) rfl (by decide)] at htype
    rw [← given?_eq hnames hfields (i := 2) rfl (by decide)] at hlabel
    exact ⟨hname.imp fun _ _ => isString_of_stringOf, htype.imp fun _ _ => isString_of_stringOf,
      hlabel.imp fun _ _ => isString_of_stringOf⟩
  next => cases h

private theorem OutputSettings.describes_of_ofToml {value : Toml.Value} {settings : OutputSettings}
    (h : OutputSettings.ofToml value = .ok settings) :
    OutputSettings.Describes (some value) settings := by
  rw [ofToml] at h
  split at h
  next fields hfields =>
    have hnames : ["color", "format"].Nodup := by decide
    have hcolor := given_of_foldlM "color" booleanOf color (fun _ _ => rfl) (fun _ _ => rfl)
      (fun _ _ _ _ h => (setField_keeps h).1) h
    have hformat := given_of_foldlM "format" OutputFormat.ofToml format (fun _ _ => rfl)
      (fun _ _ => rfl) (fun _ _ _ _ h => (setField_keeps h).2) h
    rw [← given?_eq hnames hfields (i := 0) rfl (by decide)] at hcolor
    rw [← given?_eq hnames hfields (i := 1) rfl (by decide)] at hformat
    exact ⟨hcolor.imp fun _ _ => isBoolean_of_booleanOf,
      hformat.imp fun _ _ => OutputFormat.isFormat_of_ofToml⟩
  next => cases h

private theorem describes_of_given {β : Type} {read : Toml.Value → Except ConfigError β}
    {default result : β} {Describes : Option Toml.Value → β → Prop}
    {value? : Option Toml.Value} (hnone : Describes none default)
    (hsome : ∀ value x, read value = .ok x → Describes (some value) x)
    (h : Given (fun value x => read value = .ok x) default value? result) :
    Describes value? result := by
  cases h with
  | absent => exact hnone
  | present h => exact hsome _ _ h

theorem Config.describes_of_foldlM {entries : Toml.Entries} {config : Config}
    (h : entries.foldlM setField {} = .ok config) : Describes entries config where
  identity := by
    have hdefault : IdentityRule.Describes none {} := ⟨.absent, .absent, .absent⟩
    refine describes_of_given hdefault (fun _ _ => IdentityRule.describes_of_ofToml) ?_
    exact given_of_foldlM "identity" IdentityRule.ofToml identity (fun _ _ => rfl)
      (fun _ _ => rfl) (fun _ _ _ _ h => (setField_keeps h).1) h
  output := by
    have hdefault : OutputSettings.Describes none {} := ⟨.absent, .absent⟩
    refine describes_of_given hdefault (fun _ _ => OutputSettings.describes_of_ofToml) ?_
    exact given_of_foldlM "output" OutputSettings.ofToml output (fun _ _ => rfl)
      (fun _ _ => rfl) (fun _ _ _ _ h => (setField_keeps h).2) h

theorem Config.describes_of_parse {text : String} {entries : Toml.Entries} {config : Config}
    (hentries : Toml.read? text = some entries) (h : Config.parse text = .ok config) :
    Describes entries config := by
  rw [Config.parse, hentries] at h
  exact describes_of_foldlM h

private theorem isString_unique {value : Toml.Value} {s t : String} (h : IsString value s)
    (h' : IsString value t) : s = t := by
  cases h
  cases h'
  rfl

private theorem isBoolean_unique {value : Toml.Value} {b c : Bool} (h : IsBoolean value b)
    (h' : IsBoolean value c) : b = c := by
  cases h
  cases h'
  rfl

private theorem isCalled_unique {name : String} {f g : OutputFormat} (h : f.IsCalled name)
    (h' : g.IsCalled name) : f = g := by
  cases f <;> cases g <;> first | rfl | exact absurd (h.symm.trans h') (by decide)

private theorem isFormat_unique {value : Toml.Value} {f g : OutputFormat} (h : IsFormat value f)
    (h' : IsFormat value g) : f = g := by
  cases h with
  | named h =>
    cases h' with
    | named h' => exact isCalled_unique h h'
  | keyed h =>
    cases h' with
    | keyed h' => exact isCalled_unique h h'

theorem IdentityRule.Describes.unique {value? : Option Toml.Value} {rule rule' : IdentityRule}
    (h : Describes value? rule) (h' : Describes value? rule') : rule = rule' := by
  obtain ⟨nameKey, typeKey, label⟩ := rule
  obtain ⟨nameKey', typeKey', label'⟩ := rule'
  cases h.nameKey.unique (fun _ _ _ => isString_unique) h'.nameKey
  cases h.typeKey.unique (fun _ _ _ => isString_unique) h'.typeKey
  cases h.label.unique (fun _ _ _ => isString_unique) h'.label
  rfl

theorem Config.Describes.unique {entries : Toml.Entries} {config config' : Config}
    (h : Describes entries config) (h' : Describes entries config') : config = config' := by
  obtain ⟨identity, ⟨color, format⟩⟩ := config
  obtain ⟨identity', ⟨color', format'⟩⟩ := config'
  cases h.identity.unique h'.identity
  cases h.output.color.unique (fun _ _ _ => isBoolean_unique) h'.output.color
  cases h.output.format.unique (fun _ _ _ => isFormat_unique) h'.output.format
  rfl

end ManifestDiff
