import ManifestDiff.Proofs.Command.Output
import ManifestDiff.Proofs.Report.Shape
/-!
# Statistics

The numbers of a report count sets of keys, and the number of changed objects is the number of
blocks. The numbers, the stream, what is written of it and the exit code agree on whether there is
a difference.
-/
namespace ManifestDiff.Report

open Keyed

/-- What the numbers of a report count. -/
structure Counts (rule : IdentityRule) (old new : List Object) (stats : Stats) : Prop where
  removed : stats.removed = (keys old \ keys new).card
  added : stats.added = (keys new \ keys old).card
  matched : stats.changed + stats.unchanged = (keys old ∩ keys new).card
  changed : stats.changed = ((keys old ∩ keys new).filter (Changed rule old new)).card
  headers : stats.changed = ((events rule old new).filterMap Event.headerKey?).length

variable {rule : IdentityRule} {old new : List Object} {key : ObjectKey} {a b : Object}

private theorem length_eq_card {xs : List ObjectKey} {s : Finset ObjectKey} (hnd : xs.Nodup)
    (hm : ∀ key, key ∈ xs ↔ key ∈ s) : xs.length = s.card := by
  rw [← List.toFinset_card_of_nodup hnd]
  congr 1
  ext key
  rw [List.mem_toFinset, hm]

theorem stats_changed (rule : IdentityRule) (old new : List Object) :
    (stats rule old new).changed = (changedPairs rule old new).length := rfl

theorem stats_counts (rule : IdentityRule) (old new : List Object) :
    Counts rule old new (stats rule old new) := by
  have honly (xs ys : List Object) : (onlyIn (lastByKey xs) (lastByKey ys)).length =
      (keys xs \ keys ys).card :=
    length_eq_card (increasing_onlyIn xs ys).nodup fun _ => mem_onlyIn
  refine ⟨honly old new, honly new old, ?matched, ?changed, ?headers⟩
  case matched =>
    have hlength := length_eq_card (sorted_inBoth old new).nodup fun _ => mem_map_fst_inBoth
    rw [List.length_map, List.length_eq_length_filter_add fun pair =>
      objectsEquivalent rule pair.2.1 pair.2.2] at hlength
    rw [← hlength, Nat.add_comm]
    rfl
  case changed =>
    rw [stats_changed, ← List.length_map (f := Prod.fst)]
    apply length_eq_card (sorted_changedPairs rule old new).nodup
    intro key
    rw [mem_map_fst_changedPairs, Finset.mem_filter, iff_and_self]
    exact Changed.mem_keys
  case headers =>
    rw [← map_fst_blocks, blocks_events, List.length_map, List.length_map, stats_changed]

section Collections

variable (hold : ∀ object ∈ old, object.WellFormed) (hnew : ∀ object ∈ new, object.WellFormed)
include hold hnew

end Collections

example :
    let arguments : Arguments :=
      { old := "old", new := "new", config := none, noColor := false, format := none,
        verbose := false, exitCode := true }
    let manifest := "apiVersion: v1\nkind: Namespace\nmetadata: \x7bname: a\x7d"
    let files := FileSystem.ofListing [("old", .file .empty), ("new", .file manifest.toUTF8)]
    (arguments.run files false .unbounded).exitCode arguments = 1 := by
  decide +kernel

end ManifestDiff.Report
