import ManifestDiff.Proofs.Diff.Mirror
import ManifestDiff.Proofs.Report.Stream
/-!
# Reports the other way round

The report on the new objects against the old ones matches the same pairs of objects. What was
added is removed, and the changes of each object are those of the comparison the other way round.
An unchanged section that is absent on one side is listed as it is on the other, so only the
changes of a block are mirrored and not the whole block.
-/
namespace ManifestDiff

def Stats.mirror (stats : Stats) : Stats :=
  { stats with added := stats.removed, removed := stats.added }

namespace Report

open Keyed

variable {rule : IdentityRule} {old new : List Object} {a b : Object}

theorem inBoth_comm (old new : List Object) :
    inBoth (lastByKey new) (lastByKey old) =
      (inBoth (lastByKey old) (lastByKey new)).map fun entry => (entry.1, entry.2.swap) := by
  apply (sorted_inBoth new old).ext_mem ((sorted_inBoth old new).map Prod.swap)
  rintro ⟨key, b, a⟩
  rw [mem_inBoth, and_comm, ← mem_inBoth, List.mem_map]
  constructor
  · intro hm
    exact ⟨(key, a, b), hm, rfl⟩
  · rintro ⟨⟨_, _, _⟩, hm, he⟩
    cases he
    exact hm

theorem sectionsEquivalent_comm {a b : Option Node} (ha : ∀ node, a = some node → node.WellFormed)
    (hb : ∀ node, b = some node → node.WellFormed) :
    sectionsEquivalent rule b a = sectionsEquivalent rule a b :=
  IdentityRule.equivalent_comm (Object.wellFormed_getD ha) (Object.wellFormed_getD hb)

theorem objectsEquivalent_comm (ha : a.WellFormed) (hb : b.WellFormed) :
    objectsEquivalent rule b a = objectsEquivalent rule a b := by
  rw [objectsEquivalent, objectsEquivalent, BEq.comm, BEq.comm (a := b.kind),
    IdentityRule.equivalent_comm ha.metadata hb.metadata, sectionsEquivalent_comm ha.data hb.data,
    sectionsEquivalent_comm ha.spec hb.spec]

private theorem fieldEvents_changes (path : Path) (name a b : String) :
    (fieldEvents path name b a).filter Event.isChange =
      ((fieldEvents path name a b).filter Event.isChange).map Event.mirror := by
  rw [fieldEvents, fieldEvents]
  by_cases h : a = b
  · rw [if_pos h, if_pos h.symm]
    rfl
  · rw [if_neg h, if_neg (Ne.symm h)]
    rfl

private theorem filter_map_mirror (events : List Event) :
    (events.map Event.mirror).filter Event.isChange =
      (events.filter Event.isChange).map Event.mirror := by
  rw [List.filter_map]
  congr 2
  funext e
  exact Event.isChange_mirror e

private theorem sectionEvents_changes (path : Path) {a b : Option Node}
    (ha : ∀ node, a = some node → node.WellFormed)
    (hb : ∀ node, b = some node → node.WellFormed) :
    (sectionEvents rule path b a).filter Event.isChange =
      ((sectionEvents rule path a b).filter Event.isChange).map Event.mirror := by
  -- equivalent sections have no difference, so the listed one may be left out of account
  have hchanges (a b : Option Node) : (sectionEvents rule path a b).filter Event.isChange =
      (rule.diff path (sectionContent a) (sectionContent b)).filter Event.isChange := by
    rw [sectionEvents]
    cases hpresent : a.or b with
    | none =>
      obtain ⟨rfl, rfl⟩ := Option.or_eq_none_iff.mp hpresent
      rfl
    | some present =>
      dsimp only
      cases h : sectionsEquivalent rule a b with
      | true =>
        rw [IdentityRule.diff_of_equivalent h]
        rfl
      | false => rfl
  have hdiff : rule.diff path (sectionContent b) (sectionContent a) =
      (rule.diff path (sectionContent a) (sectionContent b)).map Event.mirror :=
    IdentityRule.diff_mirror path (Object.wellFormed_getD ha) (Object.wellFormed_getD hb)
  rw [hchanges, hchanges, hdiff, filter_map_mirror]

private theorem partEvents_changes (ha : a.WellFormed) (hb : b.WellFormed) (part : Part) :
    (partEvents rule b a part).filter Event.isChange =
      ((partEvents rule a b part).filter Event.isChange).map Event.mirror := by
  cases part with
  | apiVersion => exact fieldEvents_changes _ _ _ _
  | kind => exact fieldEvents_changes _ _ _ _
  | metadata => exact sectionEvents_changes _ ha.present_metadata hb.present_metadata
  | data => exact sectionEvents_changes _ ha.data hb.data
  | spec => exact sectionEvents_changes _ ha.spec hb.spec

theorem objectEvents_changes (ha : a.WellFormed) (hb : b.WellFormed) :
    (objectEvents rule b a).filter Event.isChange =
      ((objectEvents rule a b).filter Event.isChange).map Event.mirror := by
  rw [objectEvents, objectEvents, List.filter_flatMap, List.filter_flatMap, List.map_flatMap]
  apply List.flatMap_congr
  intro part _
  exact partEvents_changes ha hb part

/-- Each header of a stream, with the changes in its block. -/
def changes (events : List Event) : List (ObjectKey × List Event) :=
  (blocks events).map fun (key, block) => (key, block.filter Event.isChange)

section Collections

variable (hold : ∀ object ∈ old, object.WellFormed) (hnew : ∀ object ∈ new, object.WellFormed)
include hold hnew

-- with `not` for `p` these are the changed objects, with `id` the unchanged ones
private theorem filter_inBoth_comm (p : Bool → Bool) :
    ((inBoth (lastByKey new) (lastByKey old)).filter fun (_, b, a) =>
        p (objectsEquivalent rule b a)) =
      ((inBoth (lastByKey old) (lastByKey new)).filter fun (_, a, b) =>
        p (objectsEquivalent rule a b)).map fun entry => (entry.1, entry.2.swap) := by
  rw [inBoth_comm, List.filter_map]
  congr 1
  apply List.filter_congr
  rintro ⟨key, a, b⟩ hm
  obtain ⟨ha, hb⟩ := (mem_inBoth).mp hm
  have hcomm : objectsEquivalent rule b a = objectsEquivalent rule a b :=
    objectsEquivalent_comm (hold a (mem_of_kept? ha).1) (hnew b (mem_of_kept? hb).1)
  exact congrArg p hcomm

theorem changedPairs_comm :
    changedPairs rule new old =
      (changedPairs rule old new).map fun entry => (entry.1, entry.2.swap) :=
  filter_inBoth_comm hold hnew not

theorem stats_comm : stats rule new old = (stats rule old new).mirror := by
  have hlength (p : Bool → Bool) :
      ((inBoth (lastByKey new) (lastByKey old)).filter fun (_, b, a) =>
          p (objectsEquivalent rule b a)).length =
        ((inBoth (lastByKey old) (lastByKey new)).filter fun (_, a, b) =>
          p (objectsEquivalent rule a b)).length := by
    rw [filter_inBoth_comm hold hnew, List.length_map]
  have hchanged := hlength not
  have hunchanged := hlength id
  dsimp only [id] at hunchanged
  rw [stats, stats, Stats.mirror]
  dsimp only
  rw [hchanged, hunchanged]

theorem changes_comm :
    changes (events rule new old) =
      (changes (events rule old new)).map fun (key, block) => (key, block.map Event.mirror) := by
  rw [changes, changes, blocks_events, blocks_events, changedPairs_comm hold hnew, List.map_map,
    List.map_map, List.map_map, List.map_map]
  apply List.map_congr_left
  rintro ⟨key, a, b⟩ hm
  obtain ⟨ha, hb, _⟩ := (mem_changedPairs).mp hm
  have hblock : (objectEvents rule b a).filter Event.isChange =
      ((objectEvents rule a b).filter Event.isChange).map Event.mirror :=
    objectEvents_changes (hold a (mem_of_kept? ha).1) (hnew b (mem_of_kept? hb).1)
  exact congrArg (Prod.mk key) hblock

end Collections

/-- How the report on the exchanged collections reads. -/
structure Mirrored (rule : IdentityRule) (old new : List Object) : Prop where
  stats : stats rule new old = (Report.stats rule old new).mirror
  removed : (events rule new old).filterMap Event.removedKey? =
    (events rule old new).filterMap Event.addedKey?
  added : (events rule new old).filterMap Event.addedKey? =
    (events rule old new).filterMap Event.removedKey?
  headers : (events rule new old).filterMap Event.headerKey? =
    (events rule old new).filterMap Event.headerKey?
  changes : changes (events rule new old) =
    (Report.changes (events rule old new)).map fun (key, block) => (key, block.map Event.mirror)

end Report

structure IdentityRule.Mirrored (rule : IdentityRule) (path : Path) (a b : Node) : Prop where
  strategy : rule.strategy? b a = rule.strategy? a b
  diff : rule.diff path b a = (rule.diff path a b).map Event.mirror
  notes : rule.diffNotes path b a = rule.diffNotes path a b

/-- A comparison the other way round says the same with the two sides exchanged. -/
theorem exchanged_mirrored (rule : IdentityRule) :
    (∀ (path : Path) (a b : WellFormedNode), rule.Mirrored path a b) ∧
      ∀ old new : List WellFormedObject, Report.Mirrored rule old.unattach new.unattach := by
  constructor
  · intro path a b
    exact ⟨IdentityRule.strategy?_comm a.2 b.2, IdentityRule.diff_mirror path a.2 b.2,
      IdentityRule.diffNotes_mirror path a.2 b.2⟩
  · intro old new
    have hwellFormed (objects : List WellFormedObject) :
        ∀ object ∈ objects.unattach, object.WellFormed := by
      intro object hm
      obtain ⟨h, _⟩ := List.mem_unattach.mp hm
      exact h
    have hold := hwellFormed old
    have hnew := hwellFormed new
    refine ⟨Report.stats_comm hold hnew, ?removed, ?added, ?headers, Report.changes_comm hold hnew⟩
    case removed => rw [Report.filterMap_removedKey?, Report.filterMap_addedKey?]
    case added => rw [Report.filterMap_removedKey?, Report.filterMap_addedKey?]
    case headers =>
      rw [← Report.map_fst_blocks, ← Report.map_fst_blocks, Report.blocks_events,
        Report.blocks_events, Report.changedPairs_comm hold hnew, List.map_map, List.map_map,
        List.map_map]
      rfl

end ManifestDiff
