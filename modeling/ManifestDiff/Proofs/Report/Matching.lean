import ManifestDiff.Proofs.Manifest.Object
import ManifestDiff.Report.Basic
import Mathlib.Data.Finset.Card
/-!
# Matching of objects

Two collections are matched by their sets of keys and by the object that counts under each key, the
last one of the collection. The keys on one side only and the pairs of objects on both sides are
listed in the order of the keys, each key once.
-/
namespace ManifestDiff

open Std Keyed

instance : TransOrd ObjectKey :=
  inferInstanceAs (TransCmp (compareLex (compareOn ObjectKey.kind)
    (compareLex (compareOn ObjectKey.namespaceName) (compareOn ObjectKey.name))))

instance : LawfulEqOrd ObjectKey where
  compare_self := ReflOrd.compare_self
  eq_of_compare := by
    intro k l h
    obtain ⟨hkind, h⟩ := Ordering.then_eq_eq.mp h
    obtain ⟨hnamespace, hname⟩ := Ordering.then_eq_eq.mp h
    obtain ⟨kind, ns, name⟩ := k
    cases LawfulEqOrd.eq_of_compare hkind
    cases LawfulEqOrd.eq_of_compare hnamespace
    cases LawfulEqOrd.eq_of_compare hname
    rfl

namespace Report

def keys (objects : List Object) : Finset ObjectKey := (objects.map Object.key).toFinset

/-- The object that counts under a key: the last one that has it. -/
def kept? (objects : List Object) (key : ObjectKey) : Option Object :=
  (objects.filter fun object => object.key = key).getLast?

def Differ (rule : IdentityRule) (a b : Object) : Prop :=
  a.apiVersion ≠ b.apiVersion ∨
    rule.equivalent (.mapping a.metadata) (.mapping b.metadata) = false ∨
    rule.equivalent (a.data.getD .empty) (b.data.getD .empty) = false ∨
    rule.equivalent (a.spec.getD .empty) (b.spec.getD .empty) = false

/-- The objects that count under a key of both collections differ. -/
def Changed (rule : IdentityRule) (old new : List Object) (key : ObjectKey) : Prop :=
  ∃ a b, kept? old key = some a ∧ kept? new key = some b ∧ Differ rule a b

def changedPairs (rule : IdentityRule) (old new : List Object) :
    List (ObjectKey × Object × Object) :=
  (inBoth (lastByKey old) (lastByKey new)).filter fun (_, a, b) => !objectsEquivalent rule a b

variable {rule : IdentityRule} {objects old new : List Object} {key : ObjectKey} {a b : Object}

theorem mem_of_kept? (h : kept? objects key = some a) : a ∈ objects ∧ a.key = key := by
  have hm := List.mem_of_getLast? h
  simpa using hm

theorem kept?_isSome_iff : (kept? objects key).isSome = true ↔ key ∈ keys objects := by
  rw [kept?, Option.isSome_iff_ne_none, ne_eq, List.getLast?_eq_none_iff, List.filter_eq_nil_iff]
  simp [keys]

theorem find?_lastByKey (objects : List Object) (key : ObjectKey) :
    find? key (lastByKey objects) = kept? objects key := by
  rw [lastByKey, find?_ofList, List.filter_map, List.getLast?_map, Option.map_map]
  exact Option.map_id'

theorem sorted_lastByKey (objects : List Object) : Sorted (lastByKey objects) :=
  sorted_ofList _

theorem mem_map_fst_lastByKey : key ∈ (lastByKey objects).map Prod.fst ↔ key ∈ keys objects := by
  rw [← find?_isSome_iff, find?_lastByKey, kept?_isSome_iff]

theorem mem_onlyIn : key ∈ onlyIn (lastByKey old) (lastByKey new) ↔ key ∈ keys old \ keys new := by
  rw [onlyIn, List.mem_filter, mem_map_fst_lastByKey, Finset.mem_sdiff, contains, find?_lastByKey,
    Bool.not_eq_true', ← Bool.not_eq_true, kept?_isSome_iff]

theorem increasing_onlyIn (old new : List Object) :
    Increasing (onlyIn (lastByKey old) (lastByKey new)) :=
  (sorted_lastByKey old).increasing.filter _

theorem mem_inBoth :
    (key, a, b) ∈ inBoth (lastByKey old) (lastByKey new) ↔
      kept? old key = some a ∧ kept? new key = some b := by
  have hentry : (key, a) ∈ lastByKey old ↔ kept? old key = some a := by
    rw [← find?_lastByKey]
    exact ⟨find?_of_mem (sorted_lastByKey old).nodup, mem_of_find?⟩
  rw [← hentry]
  simp only [inBoth, List.mem_filterMap, Option.map_eq_some_iff, Prod.mk.injEq, find?_lastByKey]
  constructor
  · rintro ⟨⟨k, c⟩, hm, d, hd, rfl, rfl, rfl⟩
    exact ⟨hm, hd⟩
  · rintro ⟨hm, hd⟩
    exact ⟨(key, a), hm, b, hd, rfl, rfl, rfl⟩

theorem mem_map_fst_inBoth :
    key ∈ (inBoth (lastByKey old) (lastByKey new)).map Prod.fst ↔ key ∈ keys old ∩ keys new := by
  rw [Finset.mem_inter, ← kept?_isSome_iff, ← kept?_isSome_iff, List.mem_map]
  constructor
  · rintro ⟨⟨_, a, b⟩, hm, rfl⟩
    obtain ⟨ha, hb⟩ := (mem_inBoth).mp hm
    exact ⟨Option.isSome_of_eq_some ha, Option.isSome_of_eq_some hb⟩
  · rintro ⟨ha, hb⟩
    obtain ⟨a, ha⟩ := Option.isSome_iff_exists.mp ha
    obtain ⟨b, hb⟩ := Option.isSome_iff_exists.mp hb
    exact ⟨(key, a, b), (mem_inBoth).mpr ⟨ha, hb⟩, rfl⟩

theorem sorted_inBoth (old new : List Object) :
    Sorted (inBoth (lastByKey old) (lastByKey new)) := by
  apply List.Pairwise.filterMap _ _ (sorted_lastByKey old)
  intro entry entry' h pair hpair pair' hpair'
  obtain ⟨_, _, rfl⟩ := Option.map_eq_some_iff.mp hpair
  obtain ⟨_, _, rfl⟩ := Option.map_eq_some_iff.mp hpair'
  exact h

theorem objectsEquivalent_eq_false_iff (h : a.key = b.key) :
    objectsEquivalent rule a b = false ↔ Differ rule a b := by
  have hkind : a.kind = b.kind := Object.kind_eq_of_key_eq h
  simp only [objectsEquivalent, sectionsEquivalent, sectionContent, hkind, beq_self_eq_true,
    Bool.and_true, Bool.and_eq_false_iff, Differ, beq_eq_false_iff_ne, or_assoc]

theorem mem_changedPairs :
    (key, a, b) ∈ changedPairs rule old new ↔
      kept? old key = some a ∧ kept? new key = some b ∧ Differ rule a b := by
  rw [changedPairs, List.mem_filter, mem_inBoth, Bool.not_eq_true', and_assoc]
  apply and_congr_right
  intro ha
  apply and_congr_right
  intro hb
  exact objectsEquivalent_eq_false_iff ((mem_of_kept? ha).2.trans (mem_of_kept? hb).2.symm)

theorem sorted_changedPairs (rule : IdentityRule) (old new : List Object) :
    Sorted (changedPairs rule old new) :=
  (sorted_inBoth old new).filter _

theorem mem_map_fst_changedPairs :
    key ∈ (changedPairs rule old new).map Prod.fst ↔ Changed rule old new key := by
  rw [List.mem_map]
  constructor
  · rintro ⟨⟨_, a, b⟩, hm, rfl⟩
    exact ⟨a, b, (mem_changedPairs).mp hm⟩
  · rintro ⟨a, b, h⟩
    exact ⟨(key, a, b), (mem_changedPairs).mpr h, rfl⟩

theorem Changed.mem_keys (h : Changed rule old new key) : key ∈ keys old ∩ keys new := by
  obtain ⟨a, b, ha, hb, _⟩ := h
  rw [Finset.mem_inter, ← kept?_isSome_iff, ← kept?_isSome_iff]
  exact ⟨Option.isSome_of_eq_some ha, Option.isSome_of_eq_some hb⟩

instance (rule : IdentityRule) (old new : List Object) : DecidablePred (Changed rule old new) :=
  fun _ => decidable_of_iff _ mem_map_fst_changedPairs

end Report
end ManifestDiff
