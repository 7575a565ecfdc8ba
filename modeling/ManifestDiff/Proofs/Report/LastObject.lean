import ManifestDiff.Proofs.Report.Stream
/-!
# The last object of each key

A report is about the objects that count, the last one of each key. Collections in which the same
objects count are not told apart, whatever else they hold and in whatever order. An object with the
key of an earlier one is warned about, once for each such object.
-/
namespace ManifestDiff

namespace Report

/-- The same objects in an order in which those with one key stand as before. -/
structure Rearranged (objects objects' : List Object) : Prop where
  perm : objects'.Perm objects
  stable : ∀ key, (objects'.filter fun object => object.key = key) =
    objects.filter fun object => object.key = key

def repeats (objects : List Object) : List ObjectKey :=
  objects.zipIdx.filterMap fun entry =>
    if entry.1.key ∈ (objects.take entry.2).map Object.key then some entry.1.key else none

variable {rule : IdentityRule} {old new old' new' objects objects' : List Object}

theorem lastByKey_congr (h : ∀ key, kept? objects key = kept? objects' key) :
    lastByKey objects = lastByKey objects' := by
  apply (sorted_lastByKey objects).ext (sorted_lastByKey objects')
  intro key
  rw [find?_lastByKey, find?_lastByKey, h key]

theorem kept?_rearranged (h : Rearranged objects objects') (key : ObjectKey) :
    kept? objects key = kept? objects' key := by
  rw [kept?, kept?, h.stable key]

theorem Rearranged.swap {a b : Object} (h : a.key ≠ b.key) (before after : List Object) :
    Rearranged (before ++ a :: b :: after) (before ++ b :: a :: after) := by
  refine ⟨(List.Perm.swap a b after).append_left before, ?_⟩
  intro key
  have hone : ¬(a.key = key ∧ b.key = key) := fun hboth => h (hboth.1.trans hboth.2.symm)
  rw [List.filter_append, List.filter_append]
  congr 1
  by_cases ha : a.key = key <;> by_cases hb : b.key = key <;> simp_all

theorem kept?_of_later (before : List Object) {after : List Object} {object : Object}
    (h : ∃ later ∈ after, later.key = object.key) (key : ObjectKey) :
    kept? (before ++ object :: after) key = kept? (before ++ after) key := by
  rw [kept?, kept?, List.filter_append, List.filter_append]
  by_cases hkey : object.key = key
  · obtain ⟨later, hm, hlater⟩ := h
    have hlater : later ∈ after.filter fun object => object.key = key := by
      simp [hm, hlater, hkey]
    obtain ⟨last, hlast⟩ := Option.isSome_iff_exists.mp
      (List.getLast?_isSome.mpr (List.ne_nil_of_mem hlater))
    rw [List.filter_cons_of_pos (by simp [hkey]), List.getLast?_append, List.getLast?_append,
      List.getLast?_cons, hlast]
    rfl
  · rw [List.filter_cons_of_neg (by simp [hkey])]

/-- Two pairs of collections that are reported on in the same way. -/
structure SameReport (rule : IdentityRule) (old new old' new' : List Object) : Prop where
  events : events rule old new = Report.events rule old' new'
  stats : stats rule old new = Report.stats rule old' new'

theorem sameReport_of_kept? (hold : ∀ key, kept? old key = kept? old' key)
    (hnew : ∀ key, kept? new key = kept? new' key) : SameReport rule old new old' new' := by
  have hxs : lastByKey old = lastByKey old' := lastByKey_congr hold
  have hys : lastByKey new = lastByKey new' := lastByKey_congr hnew
  constructor
  · rw [events_eq, events_eq, changedPairs, changedPairs, hxs, hys]
  · rw [stats, stats, hxs, hys]

private theorem repeats_concat (objects : List Object) (object : Object) :
    repeats (objects ++ [object]) = repeats objects ++
      if object.key ∈ objects.map Object.key then [object.key] else [] := by
  have hearlier : (objects.zipIdx.filterMap fun entry =>
      if entry.1.key ∈ ((objects ++ [object]).take entry.2).map Object.key then some entry.1.key
      else none) = repeats objects := by
    apply List.filterMap_congr
    intro entry hm
    have hlt : entry.2 < objects.length := List.snd_lt_of_mem_zipIdx hm
    rw [List.take_append_of_le_length hlt.le]
  rw [repeats, List.zipIdx_append, List.filterMap_append, hearlier]
  congr 1
  simp only [Nat.zero_add, List.zipIdx_singleton, List.filterMap_cons, List.filterMap_nil,
    List.take_left]
  by_cases h : object.key ∈ objects.map Object.key
  · rw [if_pos h, if_pos h]
  · rw [if_neg h, if_neg h]

private theorem repeatedKeys_concat (seen : List ObjectKey) (objects : List Object)
    (object : Object) :
    repeatedKeys seen (objects ++ [object]) = repeatedKeys seen objects ++
      if object.key ∈ seen ∨ object.key ∈ objects.map Object.key then [object.key] else [] := by
  induction objects generalizing seen with
  | nil => simp [repeatedKeys]
  | cons other objects ih =>
    have hseen : (object.key ∈ other.key :: seen ∨ object.key ∈ objects.map Object.key) ↔
        object.key ∈ seen ∨ object.key ∈ (other :: objects).map Object.key := by
      rw [List.map_cons, List.mem_cons, List.mem_cons]
      tauto
    rw [List.cons_append, repeatedKeys, repeatedKeys, ih, List.append_assoc]
    simp only [hseen]

theorem repeatedKeys_eq (objects : List Object) : repeatedKeys [] objects = repeats objects := by
  induction objects using List.reverseRecOn with
  | nil => rfl
  | append_singleton objects object ih =>
    rw [repeatedKeys_concat, repeats_concat, ih]
    simp

theorem length_repeats (objects : List Object) :
    (repeats objects).length + (keys objects).card = objects.length := by
  induction objects using List.reverseRecOn with
  | nil => rfl
  | append_singleton objects object ih =>
    have hkeys : keys (objects ++ [object]) = insert object.key (keys objects) := by
      ext key
      simp [keys, eq_comm]
    have hm : object.key ∈ objects.map Object.key ↔ object.key ∈ keys objects := by
      rw [keys, List.mem_toFinset]
    rw [repeats_concat, hkeys, List.length_append, List.length_append, List.length_singleton]
    by_cases h : object.key ∈ objects.map Object.key
    · rw [if_pos h, Finset.insert_eq_of_mem (hm.mp h), List.length_singleton]
      omega
    · rw [if_neg h, Finset.card_insert_of_notMem (mt hm.mpr h), List.length_nil]
      omega

end Report

namespace IdentityRule

variable {rule : IdentityRule}

private theorem note_of_mem_fallbackSteps {path : Path} {a b : Node} {n : Note}
    (h : .note n ∈ rule.fallbackSteps path a b) : n = .unmatched path := by
  cases a with
  | mapping xs => cases b <;> cases h
  | list xs =>
    cases b with
    | mapping ys => cases h
    | list ys =>
      rw [fallbackSteps] at h
      split at h
      · exact Step.note.inj (List.mem_singleton.mp h)
      · cases h
    | scalar t => cases h
  | scalar s => cases b <;> cases h

private theorem note_of_mem_pieceSteps {path : Path} {tainted : Bool} {segment : Segment}
    {v? w? : Option Node} {n : Note} (h : .note n ∈ rule.pieceSteps path tainted segment v? w?) :
    ∃ v w, v? = some v ∧ w? = some w ∧ .note n ∈ rule.walk (path.child segment) v w := by
  cases v? with
  | none =>
    cases w? with
    | none => cases h
    | some w => simp [pieceSteps] at h
  | some v =>
    cases w? with
    | none => simp [pieceSteps] at h
    | some w =>
      refine ⟨v, w, rfl, rfl, ?_⟩
      rw [pieceSteps] at h
      split at h
      · cases h
      · exact (List.mem_cons.mp h).resolve_left Step.noConfusion

/-- All that a comparison logs is that two lists are compared by position. -/
theorem note_of_mem_walk {path : Path} {a b : Node} {n : Note}
    (h : .note n ∈ rule.walk path a b) : ∃ place, n = .unmatched place := by
  induction a using induct_child rule generalizing path b with
  | step a ih =>
    cases hab : rule.equivalent a b with
    | true =>
      rw [walk_of_equivalent hab] at h
      cases h
    | false =>
      cases hs : rule.segments? a b with
      | none =>
        rw [walk_of_replaced hab hs] at h
        rcases List.mem_append.mp h with h | h
        · exact ⟨path, note_of_mem_fallbackSteps h⟩
        · simp at h
      | some segments =>
        rw [walk_of_pieces hab hs] at h
        rcases List.mem_append.mp h with h | h
        · exact ⟨path, note_of_mem_fallbackSteps h⟩
        · obtain ⟨segment, _, h⟩ := List.mem_flatMap.mp h
          obtain ⟨v, w, hv, _, h⟩ := note_of_mem_pieceSteps h
          exact ih segment v hv h

end IdentityRule

namespace Report

variable {rule : IdentityRule} {old new : List Object}

private theorem debug_of_mem_objectSteps {key : ObjectKey} {a b : Object} {n : Note}
    (h : .note n ∈ objectSteps rule key a b) : n.level = .debug := by
  have hfield (name a b : String) : .note n ∉ fieldSteps name a b := by
    rw [fieldSteps]
    split <;> simp
  have hsection (name : String) (a b : Option Node)
      (h : .note n ∈ sectionSteps rule name a b) : n.level = .debug := by
    rw [sectionSteps] at h
    split at h
    · cases h
    · split at h
      · simp at h
      · have hwalk := (List.mem_cons.mp h).resolve_left Step.noConfusion
        obtain ⟨place, rfl⟩ := IdentityRule.note_of_mem_walk hwalk
        rfl
  simp only [objectSteps, List.mem_cons, List.mem_append, reduceCtorEq, hfield, false_or] at h
  rcases h with (h | h) | h
  · exact hsection _ _ _ h
  · exact hsection _ _ _ h
  · exact hsection _ _ _ h

private theorem debug_of_mem_blocks {pairs : List (ObjectKey × Object × Object)} {n : Note}
    (h : .note n ∈ pairs.flatMap fun pair =>
      if objectsEquivalent rule pair.2.1 pair.2.2 then []
      else objectSteps rule pair.1 pair.2.1 pair.2.2) : n.level = .debug := by
  obtain ⟨pair, _, h⟩ := List.mem_flatMap.mp h
  split at h
  · cases h
  · exact debug_of_mem_objectSteps h

theorem warnings_eq (rule : IdentityRule) (old new : List Object) :
    (notes rule old new).filter (fun n => n.level = .warn) =
      (repeats old ++ repeats new).map .duplicateKey := by
  have hnotes (f : ObjectKey → Note) (keys : List ObjectKey) :
      (keys.map fun key => Step.note (f key)).filterMap Step.note? = keys.map f := by
    rw [List.filterMap_map]
    exact congrFun List.filterMap_eq_map keys
  have hevents (f : ObjectKey → Event) (keys : List ObjectKey) :
      (keys.map fun key => Step.event (f key)).filterMap Step.note? = [] := by
    simp [List.filterMap_map, Step.note?]
  have hwarn (keys : List ObjectKey) :
      (keys.map Note.duplicateKey).filter (fun n => n.level = .warn) =
        keys.map Note.duplicateKey := by
    rw [List.filter_eq_self, List.forall_mem_map]
    exact fun _ _ => rfl
  rw [notes, steps, List.filterMap_append, List.filter_append]
  simp only [List.filterMap_append, List.filter_append, hnotes, hevents, hwarn, repeatedKeys_eq,
    List.map_append]
  refine (congrArg₂ (· ++ ·) ?_ (List.filter_eq_nil_iff.mpr ?_)).trans (List.append_nil _)
  · simp [Step.note?, Note.level]
  · intro n hn
    obtain ⟨step, hm, hstep⟩ := List.mem_filterMap.mp hn
    cases step with
    | event e => cases hstep
    | note m =>
      cases hstep
      simp [debug_of_mem_blocks hm]

/-- A report depends on the last object of each key alone: not on the order of the objects beyond
that, and not on objects that a later one with the same key replaces. An object is warned about
exactly if its key occurred before. -/
theorem report_of_last_objects (rule : IdentityRule) :
    (∀ old new old' new' : List Object, (∀ key, kept? old key = kept? old' key) →
      (∀ key, kept? new key = kept? new' key) → SameReport rule old new old' new') ∧
    (∀ old new old' new' : List Object, Rearranged old old' → Rearranged new new' →
      SameReport rule old new old' new') ∧
    (∀ (before after other : List Object) (object : Object),
      (∃ later ∈ after, later.key = object.key) →
      SameReport rule (before ++ object :: after) other (before ++ after) other ∧
        SameReport rule other (before ++ object :: after) other (before ++ after)) ∧
    (∀ old new : List Object, (notes rule old new).filter (fun n => n.level = .warn) =
      (repeats old ++ repeats new).map .duplicateKey) ∧
    ∀ objects : List Object, (repeats objects).length + (keys objects).card = objects.length := by
  refine ⟨?kept, ?rearranged, ?replaced, warnings_eq rule, length_repeats⟩
  case kept => exact fun _ _ _ _ hold hnew => sameReport_of_kept? hold hnew
  case rearranged =>
    intro old new old' new' hold hnew
    exact sameReport_of_kept? (kept?_rearranged hold) (kept?_rearranged hnew)
  case replaced =>
    intro before after other object h
    have hsame := kept?_of_later before h
    exact ⟨sameReport_of_kept? hsame fun _ => rfl, sameReport_of_kept? (fun _ => rfl) hsame⟩

private def twiceDefined : List Object :=
  [.configMap "a" "info", .configMap "b" "info", .configMap "a" "debug"]

/-- An object that is defined again may stand on either side of another one or be left out. -/
theorem report_of_last_objects_configMaps :
    (∀ key, kept? twiceDefined key =
        kept? [.configMap "b" "info", .configMap "a" "debug"] key) ∧
      SameReport {} twiceDefined [.configMap "a" "info"]
        [.configMap "b" "info", .configMap "a" "debug"] [.configMap "a" "info"] ∧
      Rearranged twiceDefined
        [.configMap "b" "info", .configMap "a" "info", .configMap "a" "debug"] ∧
      SameReport {} twiceDefined [.configMap "a" "info"]
        [.configMap "b" "info", .configMap "a" "info", .configMap "a" "debug"]
        [.configMap "a" "info"] ∧
      (∃ later ∈ [Object.configMap "b" "info", .configMap "a" "debug"],
        later.key = (Object.configMap "a" "info").key) ∧
      SameReport {} [] twiceDefined [] [.configMap "b" "info", .configMap "a" "debug"] ∧
      (notes {} twiceDefined []).filter (fun n => n.level = .warn) =
        [.duplicateKey (.of "ConfigMap" none "a")] := by
  have hlater : ∃ later ∈ [Object.configMap "b" "info", .configMap "a" "debug"],
      later.key = (Object.configMap "a" "info").key :=
    ⟨.configMap "a" "debug", by simp, by decide⟩
  have hkept : ∀ key, kept? twiceDefined key =
      kept? [.configMap "b" "info", .configMap "a" "debug"] key :=
    kept?_of_later [] hlater
  have hswap : Rearranged twiceDefined
      [.configMap "b" "info", .configMap "a" "info", .configMap "a" "debug"] :=
    .swap (by decide) [] [.configMap "a" "debug"]
  obtain ⟨hlast, hrearranged, hreplaced, hwarnings, _⟩ := report_of_last_objects {}
  refine ⟨hkept, hlast _ _ _ _ hkept fun _ => rfl, hswap,
    hrearranged _ _ _ _ hswap ⟨.refl _, fun _ => rfl⟩, hlater, (hreplaced [] _ [] _ hlater).2, ?_⟩
  rw [hwarnings]
  rfl

end Report
end ManifestDiff
