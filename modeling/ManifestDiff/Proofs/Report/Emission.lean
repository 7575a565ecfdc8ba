import ManifestDiff.Proofs.Diff.Emission
import ManifestDiff.Proofs.Report.Matching
/-!
# Emitted reports

A report that is handed to a sink performs its steps in order, and its counters end at the numbers
of the report.
-/
namespace ManifestDiff.Report

open Emission

variable {σ ε : Type} {sink : Sink σ ε} {rule : IdentityRule}

/-- The index has the keys that were seen so far, so the keys that are told are the repeated ones. -/
private theorem forIn_index {body : Object → List (ObjectKey × Object) →
      Emission σ ε (ForInStep (List (ObjectKey × Object)))}
    (hbody : ∀ object index, body object index = (do
      performAll sink
        (if Keyed.contains object.key index then [.note (.duplicateKey object.key)] else [])
      return .yield (Keyed.insert object.key object index)))
    (objects : List Object) {index : List (ObjectKey × Object)} {seen : List ObjectKey}
    (h : ∀ key, Keyed.contains key index = seen.contains key) :
    forIn objects index body = (do
      performAll sink ((repeatedKeys seen objects).map fun key => .note (.duplicateKey key))
      return objects.foldl (fun index object => Keyed.insert object.key object index) index) := by
  induction objects generalizing index seen with
  | nil => simp [repeatedKeys]
  | cons object objects ih =>
    have hnext (key : ObjectKey) : Keyed.contains key (Keyed.insert object.key object index) =
        (object.key :: seen).contains key := by
      rw [List.contains_cons, ← h, Keyed.contains, Keyed.contains]
      by_cases hkey : key = object.key
      · rw [hkey, Keyed.find?_insert_self, beq_self_eq_true, Bool.true_or, Option.isSome_some]
      · rw [Keyed.find?_insert_of_ne hkey, beq_eq_false_iff_ne.mpr hkey, Bool.false_or]
    rw [List.forIn_cons, hbody, repeatedKeys, h, List.map_append, performAll_append]
    split <;> simp [ih hnext]

theorem emitIndex_eq (sink : Sink σ ε) (objects : List Object) :
    emitIndex objects = (do
      performAll sink ((repeatedKeys [] objects).map fun key => .note (.duplicateKey key))
      return lastByKey objects) := by
  have hlast : lastByKey objects =
      objects.foldl (fun index object => Keyed.insert object.key object index) [] :=
    List.foldl_map
  rw [emitIndex, hlast]
  simp only [bind_pure]
  refine forIn_index (fun object index => ?_) objects fun key => rfl
  split <;> simp

theorem emitField_eq (name a b : String) :
    emitField sink name a b = performAll sink (fieldSteps name a b) := by
  rw [emitField, fieldSteps]
  split <;> rw [performAll_event]

theorem emitSection_eq (name : String) (a b : Option Node) :
    emitSection rule sink name a b = performAll sink (sectionSteps rule name a b) := by
  rw [emitSection, sectionSteps]
  split
  next => rw [performAll_nil]
  next present _ =>
    split
    next => rw [performAll_event]
    next =>
      rw [performAll_cons, rule.emitDiff_eq]
      rfl

theorem emitObject_eq (key : ObjectKey) (a b : Object) :
    (do emit sink (.objectHeader key); emitObject rule sink a b) =
      performAll sink (objectSteps rule key a b) := by
  simp only [emitObject, objectSteps, performAll_cons, performAll_append, emitField_eq,
    emitSection_eq, bind_assoc]
  rfl

/-- The objects on one side are reported one by one; `f` holds the number of them so far. -/
private theorem forIn_onlyIn {keys : List ObjectKey} {event : ObjectKey → Event}
    {body : ObjectKey → Stats → Emission σ ε (ForInStep Stats)} {f : Nat → Stats}
    (h : ∀ key n, body key (f n) = (do emit sink (event key); return .yield (f (n + 1)))) (n : Nat) :
    forIn keys (f n) body = (do
      performAll sink (keys.map fun key => .event (event key))
      return f (n + keys.length)) := by
  induction keys generalizing n with
  | nil => rfl
  | cons key keys ih =>
    rw [List.forIn_cons, h, bind_assoc]
    simp [ih, Nat.add_assoc, Nat.add_comm 1]

private def count (rule : IdentityRule) (stats : Stats) (pair : ObjectKey × Object × Object) :
    Stats :=
  if objectsEquivalent rule pair.2.1 pair.2.2 then
    { stats with unchanged := stats.unchanged + 1 }
  else { stats with changed := stats.changed + 1 }

private theorem foldl_count (stats : Stats) (pairs : List (ObjectKey × Object × Object)) :
    pairs.foldl (count rule) stats =
      { stats with
        changed := stats.changed +
          (pairs.filter fun (_, a, b) => !objectsEquivalent rule a b).length
        unchanged := stats.unchanged +
          (pairs.filter fun (_, a, b) => objectsEquivalent rule a b).length } := by
  induction pairs generalizing stats with
  | nil => rfl
  | cons pair pairs ih =>
    rw [List.foldl_cons, ih, count]
    cases h : objectsEquivalent rule pair.2.1 pair.2.2 <;> simp [h, Nat.add_assoc, Nat.add_comm 1]

private theorem forIn_inBoth (rule : IdentityRule) (sink : Sink σ ε)
    (xs ys : List (ObjectKey × Object))
    {body : ObjectKey × Object → Stats → Emission σ ε (ForInStep Stats)}
    (h : ∀ entry stats, body entry stats =
      match Keyed.find? entry.1 ys with
      | some b =>
        if objectsEquivalent rule entry.2 b then
          return .yield { stats with unchanged := stats.unchanged + 1 }
        else do
          emit sink (.objectHeader entry.1)
          emitObject rule sink entry.2 b
          return .yield { stats with changed := stats.changed + 1 }
      | none => return .yield stats)
    (stats : Stats) :
    forIn xs stats body = (do
      performAll sink ((inBoth xs ys).flatMap fun (key, a, b) =>
        if objectsEquivalent rule a b then [] else objectSteps rule key a b)
      return (inBoth xs ys).foldl (count rule) stats) := by
  induction xs generalizing stats with
  | nil => rfl
  | cons entry xs ih =>
    obtain ⟨key, a⟩ := entry
    rw [List.forIn_cons, h, inBoth, List.filterMap_cons, ← inBoth]
    dsimp only
    cases Keyed.find? key ys with
    | none => simp [ih]
    | some b =>
      cases hequiv : objectsEquivalent rule a b with
      | true => simp [ih, count, hequiv]
      | false => simp [ih, count, hequiv, performAll_append, ← emitObject_eq]

theorem emitReport_eq (rule : IdentityRule) (sink : Sink σ ε) (old new : List Object) :
    emitReport rule sink old new = (do
      performAll sink (steps rule old new)
      return stats rule old new) := by
  rw [emitReport, emitIndex_eq sink, emitIndex_eq sink, steps, stats]
  simp only [performAll_append, bind_assoc, pure_bind, performAll_note]
  rw [forIn_onlyIn (f := fun n => { removed := n }) (fun _ _ => rfl) 0]
  simp only [bind_assoc, pure_bind]
  rw [forIn_onlyIn (f := fun n =>
    { added := n, removed := 0 + (onlyIn (lastByKey old) (lastByKey new)).length })
    (fun _ _ => rfl) 0]
  simp only [bind_assoc, pure_bind]
  rw [forIn_inBoth rule sink (lastByKey old) (lastByKey new) fun entry stats => ?body]
  case body => cases Keyed.find? entry.1 (lastByKey new) <;> rfl
  simp [foldl_count]

end ManifestDiff.Report
