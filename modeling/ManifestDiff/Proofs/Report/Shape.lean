import ManifestDiff.Proofs.Report.Stream
/-!
# The shape of a report

A report names the removed objects, then the added ones, then gives a block for each object that
changed, each group in the order of the keys. A block reports on the parts of its object one after
another: on the two fields always, and on a section unless it is absent on both sides, either as
unchanged or by a header with the events of its comparison.
-/
namespace ManifestDiff.Report

open Keyed

inductive FieldShape (path : Path) (name a b : String) : List Event → Prop
  | unchanged (h : a = b) : FieldShape path name a b [.unchanged path (.string a)]
  | modified (h : a ≠ b) :
    FieldShape path name a b [.modified path (some name) (.string a) (.string b)]

/-- How a section is reported, given its content on either side. -/
inductive SectionShape (rule : IdentityRule) (path : Path) (a b : Option Node) :
    List Event → Prop
  | absent (ha : a = none) (hb : b = none) : SectionShape rule path a b []
  | unchanged {value : Node} (h : a = some value ∨ b = some value)
    (hsame : rule.equivalent (a.getD .empty) (b.getD .empty) = true) :
    SectionShape rule path a b [.unchanged path value]
  | changed {events : List Event}
    (hcompared : events = rule.diff path (a.getD .empty) (b.getD .empty))
    (hunder : ∀ e ∈ events, e.isUnder path = true)
    (hchange : ∃ e ∈ events, e.isChange = true) :
    SectionShape rule path a b (.sectionHeader path :: events)

/-- How the block of an object is made of its parts. What is reported on a part are the events of
the block at or below the path of the part. -/
structure BlockShape (rule : IdentityRule) (a b : Object) (block : List Event) : Prop where
  parts : block = Part.all.flatMap fun part => block.filter (Event.isUnder part.path)
  apiVersion : FieldShape [.key "apiVersion"] "apiVersion" a.apiVersion b.apiVersion
    (block.filter (Event.isUnder Part.apiVersion.path))
  kind : FieldShape [.key "kind"] "kind" a.kind b.kind
    (block.filter (Event.isUnder Part.kind.path))
  metadata : SectionShape rule [.key "metadata"] (some (.mapping a.metadata))
    (some (.mapping b.metadata)) (block.filter (Event.isUnder Part.metadata.path))
  data : SectionShape rule [.key "data"] a.data b.data
    (block.filter (Event.isUnder Part.data.path))
  spec : SectionShape rule [.key "spec"] a.spec b.spec
    (block.filter (Event.isUnder Part.spec.path))

/-- How the stream of a report is made. The blocks are those that a reader finds who takes an event
to belong to the last header before it. -/
structure Shape (rule : IdentityRule) (old new : List Object) (events : List Event) : Prop where
  layout : events = (events.filterMap Event.removedKey?).map .objectRemoved ++
    (events.filterMap Event.addedKey?).map .objectAdded ++
    (blocks events).flatMap fun (key, block) => .objectHeader key :: block
  removed_increasing : Increasing (events.filterMap Event.removedKey?)
  mem_removed : ∀ key, key ∈ events.filterMap Event.removedKey? ↔ key ∈ keys old \ keys new
  added_increasing : Increasing (events.filterMap Event.addedKey?)
  mem_added : ∀ key, key ∈ events.filterMap Event.addedKey? ↔ key ∈ keys new \ keys old
  blocks_increasing : Increasing ((blocks events).map Prod.fst)
  mem_blocks : ∀ key, key ∈ (blocks events).map Prod.fst ↔ Changed rule old new key
  blockShape : ∀ key block, (key, block) ∈ blocks events → ∃ a b,
    kept? old key = some a ∧ kept? new key = some b ∧ BlockShape rule a b block

variable {rule : IdentityRule} {path : Path}

private theorem fieldEvents_shape (path : Path) (name a b : String) :
    FieldShape path name a b (fieldEvents path name a b) := by
  rw [fieldEvents]
  split
  next h => exact .unchanged h
  next h => exact .modified h

theorem sectionEvents_shape {a b : Option Node} (ha : ∀ node, a = some node → node.WellFormed)
    (hb : ∀ node, b = some node → node.WellFormed) :
    SectionShape rule path a b (sectionEvents rule path a b) := by
  rw [sectionEvents]
  cases hpresent : a.or b with
  | none =>
    obtain ⟨hna, hnb⟩ := Option.or_eq_none_iff.mp hpresent
    exact .absent hna hnb
  | some present =>
    dsimp only
    cases h : sectionsEquivalent rule a b with
    | true =>
      refine SectionShape.unchanged ?_ h
      rcases Option.or_eq_some_iff.mp hpresent with ha | ⟨_, hb⟩
      · exact Or.inl ha
      · exact Or.inr hb
    | false =>
      apply SectionShape.changed rfl (IdentityRule.diff_isUnder path _ _)
      exact IdentityRule.exists_change_of_not_equivalent path
        (Object.wellFormed_getD ha) (Object.wellFormed_getD hb) h

theorem objectEvents_shape {a b : Object} (ha : a.WellFormed) (hb : b.WellFormed) :
    BlockShape rule a b (objectEvents rule a b) := by
  refine ⟨?_, ?_, ?_, ?_, ?_, ?_⟩
  · simp only [filter_objectEvents]
    rfl
  · rw [filter_objectEvents]
    exact fieldEvents_shape _ _ _ _
  · rw [filter_objectEvents]
    exact fieldEvents_shape _ _ _ _
  · rw [filter_objectEvents]
    exact sectionEvents_shape ha.present_metadata hb.present_metadata
  · rw [filter_objectEvents]
    exact sectionEvents_shape ha.data hb.data
  · rw [filter_objectEvents]
    exact sectionEvents_shape ha.spec hb.spec

/-- The report on two collections of objects that were read has the shape of a report. -/
theorem events_shape (rule : IdentityRule) (old new : List Object)
    (hold : ∀ object ∈ old, object.IsDecoded) (hnew : ∀ object ∈ new, object.IsDecoded) :
    Shape rule old new (events rule old new) := by
  have hfst : (blocks (events rule old new)).map Prod.fst =
      (changedPairs rule old new).map Prod.fst := by
    rw [blocks_events, List.map_map]
    rfl
  refine ⟨?layout, ?_, ?_, ?_, ?_, ?_, ?_, ?blockShape⟩
  case layout =>
    rw [filterMap_removedKey?, filterMap_addedKey?, blocks_events, List.flatMap_map]
    exact events_eq rule old new
  case blockShape =>
    intro key block hm
    rw [blocks_events, List.mem_map] at hm
    obtain ⟨⟨_, a, b⟩, hm, he⟩ := hm
    cases he
    obtain ⟨ha, hb, _⟩ := (mem_changedPairs).mp hm
    exact ⟨a, b, ha, hb, objectEvents_shape (hold a (mem_of_kept? ha).1).wellFormed
      (hnew b (mem_of_kept? hb).1).wellFormed⟩
  · rw [filterMap_removedKey?]
    exact increasing_onlyIn old new
  · intro key
    rw [filterMap_removedKey?, mem_onlyIn]
  · rw [filterMap_addedKey?]
    exact increasing_onlyIn new old
  · intro key
    rw [filterMap_addedKey?, mem_onlyIn]
  · rw [hfst]
    exact (sorted_changedPairs rule old new).increasing
  · intro key
    rw [hfst, mem_map_fst_changedPairs]

/-- One object is removed, one is added, and one changes in its data only. -/
theorem events_shape_configMaps :
    (∀ object ∈ [Object.configMap "a" "info", .configMap "b" "info"], object.IsDecoded) ∧
      (∀ object ∈ [Object.configMap "b" "debug", .configMap "c" "info"], object.IsDecoded) ∧
      Shape {} [.configMap "a" "info", .configMap "b" "info"]
        [.configMap "b" "debug", .configMap "c" "info"]
        (events {} [.configMap "a" "info", .configMap "b" "info"]
          [.configMap "b" "debug", .configMap "c" "info"]) := by
  have hdecoded (name level name' level' : String) (h : name ≠ "") (h' : name' ≠ "") :
      ∀ object ∈ [Object.configMap name level, .configMap name' level'], object.IsDecoded :=
    List.forall_mem_cons.mpr ⟨.configMap h level,
      List.forall_mem_singleton.mpr (.configMap h' level')⟩
  have hold := hdecoded "a" "info" "b" "info" (by decide) (by decide)
  have hnew := hdecoded "b" "debug" "c" "info" (by decide) (by decide)
  exact ⟨hold, hnew, events_shape {} _ _ hold hnew⟩

end ManifestDiff.Report
