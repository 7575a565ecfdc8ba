import ManifestDiff.Diff.Differ
import ManifestDiff.Proofs.Diff.Pieces
/-!
# Emitted comparisons

A comparison that reports to a sink performs the steps of the walk in order, whatever the sink is:
its loops, its recursion and its early ends add nothing to them and leave nothing out.
-/
namespace ManifestDiff

namespace Emission

variable {σ ε : Type} {sink : Sink σ ε}

def perform (sink : Sink σ ε) : Step → Emission σ ε Unit
  | .event e => emit sink e
  | .note n => note n

@[simp] theorem perform_event (e : Event) : perform sink (.event e) = emit sink e := rfl

@[simp] theorem perform_note (n : Note) :
    perform sink (.note n) = (Emission.note n : Emission σ ε Unit) := rfl

def performAll (sink : Sink σ ε) : List Step → Emission σ ε Unit
  | [] => pure ()
  | step :: rest => do
    perform sink step
    performAll sink rest

@[simp] theorem performAll_nil : performAll sink [] = pure () := rfl

@[simp] theorem performAll_cons (step : Step) (rest : List Step) :
    performAll sink (step :: rest) = (do perform sink step; performAll sink rest) := rfl

theorem performAll_event (e : Event) : performAll sink [.event e] = emit sink e := by
  rw [performAll_cons, performAll_nil]
  exact bind_pure _

theorem performAll_note (n : Note) : performAll sink [.note n] = note n := by
  rw [performAll_cons, performAll_nil]
  exact bind_pure _

theorem performAll_append (xs ys : List Step) :
    performAll sink (xs ++ ys) = (do performAll sink xs; performAll sink ys) := by
  induction xs with
  | nil => simp
  | cons step xs ih => simp [ih]

theorem forIn_eq_performAll {α β : Type} {xs : List α}
    {body : α → β → Emission σ ε (ForInStep β)} {steps : α → List Step} {next : β → α → β}
    (h : ∀ x, ∀ b, body x b = (do performAll sink (steps x); return .yield (next b x))) (b : β) :
    forIn xs b body = (do performAll sink (xs.flatMap steps); return xs.foldl next b) := by
  induction xs generalizing b with
  | nil => simp
  | cons x xs ih => simp [h, ih, performAll_append]

end Emission

namespace IdentityRule

open Emission

variable {rule : IdentityRule} {σ ε : Type} {sink : Sink σ ε}

section Differs

variable {path child : Path} {v w : Node}

private theorem forIn_eq_rounds {α : Type} {xs : List α} {steps : α → List Step}
    {body : α → PUnit → Emission σ ε (ForInStep PUnit)}
    (h : ∀ x, body x ⟨⟩ = (do performAll sink (steps x); return .yield ⟨⟩)) :
    (do forIn xs PUnit.unit body; pure ()) = performAll sink (xs.flatMap steps) := by
  rw [forIn_eq_performAll (fun x _ => h x)]
  simp

private theorem unless_equivalent_eq {α : Type} {next : Emission σ ε α}
    (h : rule.emitDiff sink child v w = performAll sink (rule.walk child v w)) :
    (if rule.equivalent v w = true then next
      else do
        emit sink (.nested child)
        rule.emitDiff sink child v w
        next) =
      (do
        performAll sink
          (if rule.equivalent v w then [] else .event (.nested child) :: rule.walk child v w)
        next) := by
  rw [h]
  split
  · rw [performAll_nil, pure_bind]
  · rw [performAll_cons, bind_assoc]
    rfl

variable {xs ys : List (String × Node)} {items items' : List Node}

theorem emitMappings_eq
    (ih : ∀ k v, Keyed.find? k xs = some v → ∀ path w,
      rule.emitDiff sink path v w = performAll sink (rule.walk path v w)) :
    rule.emitMappings sink path xs ys = performAll sink ((Keyed.unionKeys xs ys).flatMap fun k =>
      rule.walkEntry (path.child (.key k)) k xs (Keyed.find? k ys)) := by
  rw [emitMappings]
  refine forIn_eq_rounds fun k => ?_
  rw [walkEntry_eq path false]
  dsimp only
  split
  next w hv hw =>
    rw [hv, hw, pieceSteps, performAll_event]
    rfl
  next v hv hw =>
    rw [hv, hw, pieceSteps, performAll_event]
    rfl
  next v w hv hw =>
    rw [hv, hw, pieceSteps]
    exact unless_equivalent_eq (ih k v hv _ w)
  next hv hw => rw [hv, hw, pieceSteps, performAll_nil, pure_bind]

theorem emitIdentities_eq {old new : List (String × Node)} {tainted : Bool}
    (hold : rule.index items = some old) (hnew : rule.index items' = some new)
    (ih : ∀ v ∈ items, ∀ path w,
      rule.emitDiff sink path v w = performAll sink (rule.walk path v w)) :
    rule.emitIdentities sink path old new hold tainted =
      performAll sink ((Keyed.sortKeys (rule.identities items ++ rule.identities items')).flatMap
        fun id => rule.walkElement (path.child (.identity rule.label id)) id tainted items
          (rule.find? id items')) := by
  rw [emitIdentities, unionKeys_of_index hold hnew]
  refine forIn_eq_rounds fun id => ?_
  rw [walkElement_eq, ← find?_of_index hold, ← find?_of_index hnew]
  dsimp only
  split
  next w hv hw =>
    rw [hv, hw, pieceSteps, performAll_event]
    rfl
  next v hv hw =>
    rw [hv, hw, pieceSteps, performAll_event]
    rfl
  next v w hv hw =>
    have hm : v ∈ items := mem_of_index hold _ (Keyed.mem_of_find? hv)
    rw [hv, hw, pieceSteps]
    exact unless_equivalent_eq (ih v hm _ w)
  next hv hw => rw [hv, hw, pieceSteps, performAll_nil, pure_bind]

theorem emitItems_eq {index : Nat}
    (ih : ∀ v ∈ items, ∀ path w,
      rule.emitDiff sink path v w = performAll sink (rule.walk path v w)) :
    rule.emitItems sink path index items items' =
      performAll sink (rule.walkItems path index items items') := by
  induction items generalizing index items' with
  | nil => simp [emitItems, walkItems]
  | cons v items ihItems =>
    cases items' with
    | nil => simp [emitItems, walkItems]
    | cons w items' =>
      obtain ⟨hv, hitems⟩ := List.forall_mem_cons.mp ih
      rw [emitItems, walkItems, performAll_append, ihItems hitems]
      exact unless_equivalent_eq (hv _ w)

theorem emitPositions_eq
    (ih : ∀ v ∈ items, ∀ path w,
      rule.emitDiff sink path v w = performAll sink (rule.walk path v w)) :
    rule.emitPositions sink path items items' =
      performAll sink (if items.length == items'.length then rule.walkItems path 0 items items'
        else [.event (.modified path none (.list items) (.list items'))]) := by
  rw [emitPositions, emitItems_eq ih]
  cases hlen : items.length == items'.length with
  | true => simp [bne, hlen]
  | false =>
    rw [bne, hlen, if_neg Bool.false_ne_true, performAll_event]
    rfl

theorem emitDiff_of_equivalent {a b : Node} (h : rule.equivalent a b = true) :
    rule.emitDiff sink path a b = performAll sink (rule.walk path a b) := by
  have hs : rule.strategy? a b = none := by rw [strategy?.eq_def, if_pos h]
  rw [emitDiff.eq_def, hs, walk_of_equivalent h, performAll_nil]

theorem emitDiff_mappings (h : rule.strategy? (.mapping xs) (.mapping ys) = some .mapping) :
    rule.emitDiff sink path (.mapping xs) (.mapping ys) = rule.emitMappings sink path xs ys := by
  rw [emitDiff.eq_def, h]

theorem emitDiff_identities (h : rule.strategy? (.list items) (.list items') = some .identityList)
    (hold : rule.index items = some xs) (hnew : rule.index items' = some ys) :
    rule.emitDiff sink path (.list items) (.list items') =
      rule.emitIdentities sink path xs ys hold (items.length != items'.length) := by
  rw [emitDiff.eq_def, h]
  dsimp only
  split
  next old new hold' hnew' =>
    cases hold.symm.trans hold'
    cases hnew.symm.trans hnew'
    rfl
  next hnone => exact absurd hnew (hnone xs ys hold)

theorem emitDiff_unmatched (h : rule.strategy? (.list items) (.list items') = some .identityList)
    (hlists : rule.areIdentityLists items items' = true)
    (hm : rule.matchesByIdentity items items' = false) :
    rule.emitDiff sink path (.list items) (.list items') = (do
      note (.unmatched path)
      rule.emitPositions sink path items items') := by
  rw [emitDiff.eq_def, h]
  dsimp only
  split
  next old new hold hnew =>
    simp [matchesByIdentity, hlists, hold, hnew] at hm
  next => rfl

theorem emitDiff_positions
    (h : rule.strategy? (.list items) (.list items') = some .positionalList) :
    rule.emitDiff sink path (.list items) (.list items') =
      rule.emitPositions sink path items items' := by
  rw [emitDiff.eq_def, h]

theorem emitDiff_replacement {a b : Node} (h : rule.strategy? a b = some .replacement) :
    rule.emitDiff sink path a b = emit sink (.modified path none a b) := by
  rw [emitDiff.eq_def, h]

private theorem emitDiff_replaced {a b : Node} (hs : rule.strategy? a b = some .replacement)
    (hw : rule.walk path a b = [.event (.modified path none a b)]) :
    rule.emitDiff sink path a b = performAll sink (rule.walk path a b) := by
  rw [emitDiff_replacement hs, hw, performAll_event]

private theorem emitDiff_lists
    (h : rule.equivalent (.list items) (.list items') = false)
    (ih : ∀ v ∈ items, ∀ path w,
      rule.emitDiff sink path v w = performAll sink (rule.walk path v w)) :
    rule.emitDiff sink path (.list items) (.list items') =
      performAll sink (rule.walk path (.list items) (.list items')) := by
  rw [walk, if_neg (by simp [h])]
  cases hlists : rule.areIdentityLists items items' with
  | false =>
    have hm : rule.matchesByIdentity items items' = false := by simp [matchesByIdentity, hlists]
    have hs : rule.strategy? (.list items) (.list items') = some .positionalList := by
      simp [strategy?, h, hlists]
    rw [emitDiff_positions hs, emitPositions_eq ih, hm]
    rfl
  | true =>
    have hs : rule.strategy? (.list items) (.list items') = some .identityList := by
      simp [strategy?, h, hlists]
    cases hm : rule.matchesByIdentity items items' with
    | false =>
      rw [emitDiff_unmatched hs hlists hm, emitPositions_eq ih, if_neg Bool.false_ne_true, if_pos rfl,
        performAll_append, performAll_note]
    | true =>
      have hindexed := hm
      simp only [matchesByIdentity, Bool.and_eq_true, Option.isSome_iff_exists] at hindexed
      obtain ⟨⟨_, old, hold⟩, new, hnew⟩ := hindexed
      rw [emitDiff_identities hs hold hnew, emitIdentities_eq hold hnew ih]
      rfl

end Differs

/-- A comparison performs the steps of the walk, neither more nor fewer. -/
theorem emitDiff_eq (rule : IdentityRule) (sink : Sink σ ε) (path : Path) (a b : Node) :
    rule.emitDiff sink path a b = performAll sink (rule.walk path a b) := by
  induction a generalizing path b with
  | mapping xs ih =>
    cases h : rule.equivalent (.mapping xs) b with
    | true => exact emitDiff_of_equivalent h
    | false =>
      cases b with
      | mapping ys =>
        have hs : rule.strategy? (.mapping xs) (.mapping ys) = some .mapping := by
          simp [strategy?, h]
        rw [emitDiff_mappings hs, walk, if_neg (by simp [h])]
        exact emitMappings_eq fun k v hv path w => ih (k, v) (Keyed.mem_of_find? hv) path w
      | _ => exact emitDiff_replaced (by simp [strategy?, h]) (by simp [walk, h])
  | list xs ih =>
    cases h : rule.equivalent (.list xs) b with
    | true => exact emitDiff_of_equivalent h
    | false =>
      cases b with
      | list ys => exact emitDiff_lists h fun v hv path w => ih v hv path w
      | _ => exact emitDiff_replaced (by simp [strategy?, h]) (by simp [walk, h])
  | scalar s =>
    cases h : rule.equivalent (.scalar s) b with
    | true => exact emitDiff_of_equivalent h
    | false =>
      cases b <;> exact emitDiff_replaced (by simp [strategy?, h]) (by simp [walk, h])

end IdentityRule
end ManifestDiff
