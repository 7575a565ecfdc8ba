import ManifestDiff.Proofs.Diff.Pieces
/-!
# Comparisons the other way round

The comparison of the new value with the old one takes the same steps in the same order, with the
roles of the two sides exchanged. Whatever the comparison chooses by looking at the two values, it
chooses the same when they are exchanged: whether they are equivalent, how they are compared, along
which segments, and whether their lengths differ.
-/
namespace ManifestDiff

namespace Event

def mirror : Event → Event
  | .objectRemoved object => .objectAdded object
  | .objectAdded object => .objectRemoved object
  | .added path value => .removed path value
  | .removed path value => .added path value
  | .modified path key old new => .modified path key new old
  | .structuralAddition path identity value tainted =>
    .structuralRemoval path identity value tainted
  | .structuralRemoval path identity value tainted =>
    .structuralAddition path identity value tainted
  | event => event

theorem isChange_mirror (event : Event) : event.mirror.isChange = event.isChange := by
  cases event <;> rfl

theorem mirror_addition (path : Path) (tainted : Bool) (segment : Segment) (value : Node) :
    (addition path tainted segment value).mirror = removal path tainted segment value := by
  cases segment <;> rfl

theorem mirror_removal (path : Path) (tainted : Bool) (segment : Segment) (value : Node) :
    (removal path tainted segment value).mirror = addition path tainted segment value := by
  cases segment <;> rfl

end Event

namespace Step

def mirror : Step → Step
  | .event e => .event e.mirror
  | .note n => .note n

theorem filterMap_event?_mirror (steps : List Step) :
    (steps.map mirror).filterMap event? = (steps.filterMap event?).map Event.mirror := by
  rw [List.filterMap_map, List.map_filterMap]
  apply List.filterMap_congr
  intro step _
  cases step <;> rfl

theorem filterMap_note?_mirror (steps : List Step) :
    (steps.map mirror).filterMap note? = steps.filterMap note? := by
  rw [List.filterMap_map]
  apply List.filterMap_congr
  intro step _
  cases step <;> rfl

end Step

namespace IdentityRule

variable {rule : IdentityRule}

theorem equivalent_comm {a b : Node} (ha : a.WellFormed) (hb : b.WellFormed) :
    rule.equivalent b a = rule.equivalent a b :=
  Bool.eq_iff_iff.mpr ⟨equivalent_symm hb ha, equivalent_symm ha hb⟩

theorem areIdentityLists_comm (xs ys : List Node) :
    rule.areIdentityLists ys xs = rule.areIdentityLists xs ys :=
  Bool.and_comm _ _

theorem matchesByIdentity_comm (xs ys : List Node) :
    rule.matchesByIdentity ys xs = rule.matchesByIdentity xs ys := by
  apply Bool.eq_iff_iff.mpr
  rw [matchesByIdentity_iff, matchesByIdentity_iff, and_comm]

theorem strategy?_comm {a b : Node} (ha : a.WellFormed) (hb : b.WellFormed) :
    rule.strategy? b a = rule.strategy? a b := by
  have h : rule.equivalent b a = rule.equivalent a b := equivalent_comm ha hb
  cases a with
  | list xs =>
    cases b with
    | list ys => simp only [strategy?, h, areIdentityLists_comm xs ys]
    | mapping ys => simp only [strategy?, h]
    | scalar t => simp only [strategy?, h]
  | mapping xs => cases b <;> simp only [strategy?, h]
  | scalar s => cases b <;> simp only [strategy?, h]

theorem segments?_comm (a b : Node) : rule.segments? b a = rule.segments? a b := by
  cases a with
  | mapping xs =>
    cases b with
    | mapping ys => rw [segments?, segments?, Keyed.unionKeys, Keyed.sortKeys_append_comm]; rfl
    | list ys => rfl
    | scalar t => rfl
  | list xs =>
    cases b with
    | mapping ys => rfl
    | list ys =>
      rw [segments?, segments?, matchesByIdentity_comm, Keyed.sortKeys_append_comm]
      by_cases hlen : xs.length = ys.length
      · rw [if_pos hlen, if_pos hlen.symm, hlen]
      · rw [if_neg hlen, if_neg (Ne.symm hlen)]
    | scalar t => rfl
  | scalar s => cases b <;> rfl

theorem lengthsDiffer_comm (a b : Node) : lengthsDiffer b a = lengthsDiffer a b := by
  cases a with
  | list xs =>
    cases b with
    | list ys => exact bne_comm
    | mapping ys => rfl
    | scalar t => rfl
  | mapping xs => cases b <;> rfl
  | scalar s => cases b <;> rfl

private theorem fallbackSteps_comm (path : Path) (a b : Node) :
    rule.fallbackSteps path b a = (rule.fallbackSteps path a b).map Step.mirror := by
  cases a with
  | list xs =>
    cases b with
    | list ys =>
      rw [fallbackSteps, fallbackSteps, areIdentityLists_comm, matchesByIdentity_comm]
      split <;> rfl
    | mapping ys => rfl
    | scalar t => rfl
  | mapping xs => cases b <;> rfl
  | scalar s => cases b <;> rfl

private theorem pieceSteps_comm {path : Path} {tainted : Bool} {segment : Segment}
    {v? w? : Option Node} (hv : ∀ v, v? = some v → v.WellFormed)
    (hw : ∀ w, w? = some w → w.WellFormed)
    (ih : ∀ v w, v? = some v → w? = some w →
      rule.walk (path.child segment) w v = (rule.walk (path.child segment) v w).map Step.mirror) :
    rule.pieceSteps path tainted segment w? v? =
      (rule.pieceSteps path tainted segment v? w?).map Step.mirror := by
  cases v? with
  | none =>
    cases w? with
    | none => rfl
    | some w => rw [pieceSteps, pieceSteps, List.map_singleton, Step.mirror, Event.mirror_addition]
  | some v =>
    cases w? with
    | none => rw [pieceSteps, pieceSteps, List.map_singleton, Step.mirror, Event.mirror_removal]
    | some w =>
      rw [pieceSteps, pieceSteps, equivalent_comm (hv v rfl) (hw w rfl)]
      split
      · rfl
      · rw [List.map_cons, ← ih v w rfl rfl]
        rfl

/-- The comparison the other way round takes the mirrored steps, in the same order. -/
theorem walk_mirror (path : Path) {a b : Node} (ha : a.WellFormed) (hb : b.WellFormed) :
    rule.walk path b a = (rule.walk path a b).map Step.mirror := by
  induction a using induct_child rule generalizing path b with
  | step a ih =>
    cases h : rule.equivalent a b with
    | true => rw [walk_of_equivalent h, walk_of_equivalent (equivalent_symm ha hb h), List.map_nil]
    | false =>
      have h' : rule.equivalent b a = false := (equivalent_comm ha hb).trans h
      cases hs : rule.segments? a b with
      | none =>
        rw [walk_of_replaced h hs, walk_of_replaced h' ((segments?_comm a b).trans hs),
          List.map_append, fallbackSteps_comm]
        rfl
      | some segments =>
        rw [walk_of_pieces h hs, walk_of_pieces h' ((segments?_comm a b).trans hs),
          List.map_append, List.map_flatMap, fallbackSteps_comm, lengthsDiffer_comm]
        congr 1
        apply List.flatMap_congr
        intro segment _
        apply pieceSteps_comm
        · exact fun v => wellFormed_of_child? ha
        · exact fun w => wellFormed_of_child? hb
        · intro v w hv hw
          exact ih segment v hv _ (wellFormed_of_child? ha hv) (wellFormed_of_child? hb hw)

theorem diff_mirror (path : Path) {a b : Node} (ha : a.WellFormed) (hb : b.WellFormed) :
    rule.diff path b a = (rule.diff path a b).map Event.mirror := by
  rw [diff, diff, walk_mirror path ha hb, Step.filterMap_event?_mirror]

theorem diffNotes_mirror (path : Path) {a b : Node} (ha : a.WellFormed) (hb : b.WellFormed) :
    rule.diffNotes path b a = rule.diffNotes path a b := by
  rw [diffNotes, diffNotes, walk_mirror path ha hb, Step.filterMap_note?_mirror]

end IdentityRule
end ManifestDiff
