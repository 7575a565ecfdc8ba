import ManifestDiff.Proofs.Node.WellFormed
/-!
# Keys that name no field

The errors of a value are listed in document order, those behind the first one too: for each entry
of a mapping the error of its key comes before the errors of its value. Decoding reports the first
error of this list, and the list is empty exactly when the keys of every mapping in the value are
scalars with different names.
-/
namespace ManifestDiff

namespace Yaml.Value

inductive Within (part : Value) : Value → Prop
  | self : Within part part
  | item {items : List Value} {item : Value} (hm : item ∈ items) (h : Within part item) :
    Within part (.sequence items)
  | value {entries : List (Value × Value)} {entry : Value × Value} (hm : entry ∈ entries)
    (h : Within part entry.2) : Within part (.mapping entries)
  | tagged {tag : String} {value : Value} (h : Within part value) : Within part (.tagged tag value)

def scalar? : Value → Option Scalar
  | .null => some .null
  | .bool b => some (.bool b)
  | .number n => some (.ofNumber n)
  | .string s => some (.string s)
  | _ => none

def fieldName? (key : Value) : Option String :=
  key.untag.scalar?.map Scalar.display

/-- Every key names a field, and no two keys name the same one. -/
structure DistinctKeys (entries : List (Value × Value)) : Prop where
  named : ∀ entry ∈ entries, (entry.1.untag.scalar?).isSome = true
  distinct : (entries.map fun entry => entry.1.fieldName?).Nodup

def keyError? (earlier : List Value) (key : Value) : Option KeyError :=
  match key.untag with
  | .sequence _ => some .unsupportedSequence
  | .mapping _ => some .unsupportedMapping
  | value => (value.fieldName?).bind fun name =>
      if some name ∈ earlier.map fieldName? then some (.duplicate name) else none

mutual

def keyErrors : Value → List KeyError
  | .sequence items => keyErrorsOfItems items
  | .mapping entries => keyErrorsOfEntries [] entries
  | .tagged _ value => keyErrors value
  | _ => []

def keyErrorsOfItems : List Value → List KeyError
  | [] => []
  | item :: rest => keyErrors item ++ keyErrorsOfItems rest

def keyErrorsOfEntries (earlier : List Value) : List (Value × Value) → List KeyError
  | [] => []
  | (key, value) :: rest =>
    (keyError? earlier key).toList ++ (keyErrors value ++ keyErrorsOfEntries (key :: earlier) rest)

end

theorem keyText_eq_ok_iff {key : Value} {name : String} :
    key.keyText = .ok name ↔ key.fieldName? = some name := by
  induction key with
  | tagged tag value ih =>
    rw [keyText, ih]
    rfl
  | _ => simp [keyText, fieldName?, untag, scalar?, Scalar.display]

theorem keyError?_of_keyText_error {key : Value} {cause : KeyError} (h : key.keyText = .error cause)
    (earlier : List Value) : key.keyError? earlier = some cause := by
  induction key with
  | tagged tag value ih =>
    rw [keyText] at h
    exact ih h
  | sequence items =>
    cases h
    rfl
  | mapping entries =>
    cases h
    rfl
  | _ => simp [keyText] at h

theorem keyError?_of_keyText_ok {key : Value} {name : String} (h : key.keyText = .ok name)
    (earlier : List Value) :
    keyError? earlier key =
      if some name ∈ earlier.map fieldName? then some (.duplicate name) else none := by
  have hname : key.fieldName? = some name := (keyText_eq_ok_iff).mp h
  induction key with
  | tagged tag value ih =>
    rw [keyText] at h
    exact ih h hname
  | sequence items => simp [keyText] at h
  | mapping entries => simp [keyText] at h
  | _ => simp [keyError?, untag, hname]

theorem isSome_fieldName? {key : Value} :
    (key.fieldName?).isSome = (key.untag.scalar?).isSome :=
  Option.isSome_map

theorem keyError?_eq_none_iff {earlier : List Value} {key : Value} :
    keyError? earlier key = none ↔
      (key.untag.scalar?).isSome = true ∧ key.fieldName? ∉ earlier.map fieldName? := by
  rw [← isSome_fieldName?]
  cases hk : key.keyText with
  | error cause =>
    have hname : key.fieldName? = none := by
      apply Option.eq_none_iff_forall_ne_some.mpr
      intro name hname
      rw [(keyText_eq_ok_iff).mpr hname] at hk
      cases hk
    simp [keyError?_of_keyText_error hk, hname]
  | ok name =>
    rw [keyError?_of_keyText_ok hk, (keyText_eq_ok_iff).mp hk]
    simp

private theorem keyErrorsOfItems_eq_nil_iff {items : List Value} :
    keyErrorsOfItems items = [] ↔ ∀ item ∈ items, item.keyErrors = [] := by
  induction items with
  | nil => simp [keyErrorsOfItems]
  | cons item rest ih => rw [keyErrorsOfItems, List.append_eq_nil_iff, ih, List.forall_mem_cons]

private theorem keyErrorsOfEntries_eq_nil_iff {entries : List (Value × Value)}
    {earlier : List Value} :
    keyErrorsOfEntries earlier entries = [] ↔
      (DistinctKeys entries ∧
        ∀ entry ∈ entries, entry.1.fieldName? ∉ earlier.map fieldName?) ∧
      ∀ entry ∈ entries, entry.2.keyErrors = [] := by
  induction entries generalizing earlier with
  | nil =>
    have hdistinct : DistinctKeys [] := ⟨by simp, by simp⟩
    simp [keyErrorsOfEntries, hdistinct]
  | cons entry rest ih =>
    obtain ⟨key, value⟩ := entry
    have hcons : DistinctKeys ((key, value) :: rest) ↔
        (key.untag.scalar?).isSome = true ∧
          (∀ entry ∈ rest, entry.1.fieldName? ≠ key.fieldName?) ∧ DistinctKeys rest := by
      constructor
      · rintro ⟨hnamed, hdistinct⟩
        obtain ⟨hkey, hrest⟩ := List.forall_mem_cons.mp hnamed
        obtain ⟨hnew, hrest'⟩ := List.nodup_cons.mp hdistinct
        refine ⟨hkey, ?_, hrest, hrest'⟩
        intro entry hm he
        exact hnew (List.mem_map.mpr ⟨entry, hm, he⟩)
      · rintro ⟨hkey, hnew, hrest⟩
        refine ⟨List.forall_mem_cons.mpr ⟨hkey, hrest.named⟩, ?_⟩
        apply List.nodup_cons.mpr ⟨_, hrest.distinct⟩
        rw [List.mem_map]
        rintro ⟨entry, hm, he⟩
        exact hnew entry hm he
    -- `key` joins the earlier keys: what the rest must not name again is split between the two
    rw [keyErrorsOfEntries, List.append_eq_nil_iff, List.append_eq_nil_iff,
      Option.toList_eq_nil_iff, keyError?_eq_none_iff, ih, hcons, List.forall_mem_cons,
      List.forall_mem_cons]
    simp only [List.map_cons, List.mem_cons, not_or, forall_and]
    tauto

/-- A value has no errors when the keys of every mapping in it are distinct names. -/
theorem keyErrors_eq_nil_iff {value : Value} :
    value.keyErrors = [] ↔ ∀ entries, (mapping entries).Within value → DistinctKeys entries := by
  induction value with
  | sequence items ih =>
    rw [keyErrors, keyErrorsOfItems_eq_nil_iff]
    constructor
    · intro h entries hwithin
      cases hwithin with
      | item hm hitem => exact (ih _ hm).mp (h _ hm) entries hitem
    · intro h item hm
      exact (ih item hm).mpr fun entries hwithin => h entries (.item hm hwithin)
  | mapping fields ih =>
    rw [keyErrors, keyErrorsOfEntries_eq_nil_iff]
    constructor
    · rintro ⟨⟨hkeys, -⟩, h⟩ entries hwithin
      cases hwithin with
      | self => exact hkeys
      | value hm hvalue => exact (ih _ hm).mp (h _ hm) entries hvalue
    · intro h
      refine ⟨⟨h fields .self, by simp⟩, ?_⟩
      intro entry hm
      exact (ih entry hm).mpr fun entries hwithin => h entries (.value hm hwithin)
  | tagged tag value ih =>
    rw [keyErrors, ih]
    constructor
    · intro h entries hwithin
      cases hwithin with
      | tagged hvalue => exact h entries hvalue
    · exact fun h entries hwithin => h entries (.tagged hwithin)
  | _ =>
    refine iff_of_true rfl ?_
    intro entries hwithin
    cases hwithin

end Yaml.Value

namespace Node

open Keyed Yaml.Value

/-- The outcome is the first of these errors, and success when there is none. -/
def Reports {α : Type} (outcome : Except KeyError α) (errors : List KeyError) : Prop :=
  match outcome with
  | .ok _ => errors = []
  | .error cause => errors.head? = some cause

variable {α β : Type} {x : Except KeyError α} {errors : List KeyError}

theorem Reports.map (h : Reports x errors) (f : α → β) : Reports (x.map f) errors := by
  cases x <;> exact h

theorem Reports.bind (h : Reports x errors) {f : α → Except KeyError β} {later : List KeyError}
    (hlater : ∀ a, Reports (f a) later) : Reports (x >>= f) (errors ++ later) := by
  cases x with
  | ok a =>
    have hnil : errors = [] := h
    rw [hnil, List.nil_append]
    exact hlater a
  | error cause =>
    obtain ⟨rest, rfl⟩ := List.head?_eq_some_iff.mp h
    rfl

private theorem ofYamlItems_reports {items : List Yaml.Value}
    (h : ∀ item ∈ items, Reports (ofYaml item) item.keyErrors) :
    Reports (ofYamlItems items) (keyErrorsOfItems items) := by
  induction items with
  | nil => rfl
  | cons item rest ih =>
    obtain ⟨hitem, hrest⟩ := List.forall_mem_cons.mp h
    rw [ofYamlItems, keyErrorsOfItems]
    apply hitem.bind
    intro node
    rw [← List.append_nil (keyErrorsOfItems rest)]
    exact (ih hrest).bind fun _ => rfl

theorem contains_insert {k l : String} {v : Node} {entries : List (String × Node)} :
    contains l (insert k v entries) = true ↔ l = k ∨ contains l entries = true := by
  rw [contains, contains]
  by_cases h : l = k
  · simp [h, find?_insert_self]
  · simp [h, find?_insert_of_ne h]

private theorem ofYamlEntries_reports {entries : List (Yaml.Value × Yaml.Value)}
    (h : ∀ entry ∈ entries, Reports (ofYaml entry.2) entry.2.keyErrors)
    {before : List (String × Node)} {earlier : List Yaml.Value}
    (hb : ∀ name, contains name before = true ↔ some name ∈ earlier.map fieldName?) :
    Reports (ofYamlEntries before entries) (keyErrorsOfEntries earlier entries) := by
  induction entries generalizing before earlier with
  | nil => rfl
  | cons entry rest ih =>
    obtain ⟨key, value⟩ := entry
    obtain ⟨hvalue, hrest⟩ := List.forall_mem_cons.mp h
    rw [ofYamlEntries, keyErrorsOfEntries]
    cases hk : key.keyText with
    | error cause =>
      rw [keyError?_of_keyText_error hk]
      rfl
    | ok name =>
      rw [keyError?_of_keyText_ok hk]
      change Reports (if contains name before = true then _ else _) _
      by_cases hc : contains name before = true
      · rw [if_pos hc, if_pos ((hb name).mp hc)]
        rfl
      · rw [if_neg hc, if_neg (mt (hb name).mpr hc)]
        apply hvalue.bind
        intro node
        -- the name of this key is the only one that both sides have gained
        apply ih hrest
        intro other
        rw [contains_insert, hb, List.map_cons, List.mem_cons, (keyText_eq_ok_iff).mp hk,
          Option.some.injEq]

theorem ofYaml_reports (value : Yaml.Value) : Reports (ofYaml value) value.keyErrors := by
  induction value with
  | sequence items ih =>
    rw [ofYaml, keyErrors]
    exact (ofYamlItems_reports ih).map _
  | mapping entries ih =>
    rw [ofYaml, keyErrors]
    refine (ofYamlEntries_reports ih ?_).map _
    intro name
    simp [contains, find?]
  | tagged tag value ih =>
    rw [ofYaml, keyErrors]
    exact ih
  | _ => rfl

theorem ofYaml_eq_error_iff {value : Yaml.Value} {cause : KeyError} :
    ofYaml value = .error cause ↔ value.keyErrors.head? = some cause := by
  have h : Reports (ofYaml value) value.keyErrors := ofYaml_reports value
  cases ho : ofYaml value with
  | ok node =>
    rw [ho] at h
    have hnil : value.keyErrors = [] := h
    simp [hnil]
  | error first =>
    rw [ho] at h
    have hfirst : value.keyErrors.head? = some first := h
    simp [hfirst]

theorem exists_ofYaml_eq_ok_iff {value : Yaml.Value} :
    (∃ node, ofYaml value = .ok node) ↔ value.keyErrors = [] := by
  have h : Reports (ofYaml value) value.keyErrors := ofYaml_reports value
  cases ho : ofYaml value with
  | ok node =>
    rw [ho] at h
    exact iff_of_true ⟨node, rfl⟩ h
  | error cause =>
    rw [ho] at h
    obtain ⟨rest, hrest⟩ := List.head?_eq_some_iff.mp h
    simp [hrest]

end Node
end ManifestDiff
