import ManifestDiff.Proofs.Report.Stream
/-!
# Reports on some of the objects

Objects are compared independently of one another. A report on the objects with keys from some set
is the part of the whole report that belongs to these keys, and the numbers of a report are the sums
of those for a set of keys and for its complement.
-/
namespace ManifestDiff

instance : Add Stats where
  add s t := ⟨s.added + t.added, s.removed + t.removed, s.changed + t.changed,
    s.unchanged + t.unchanged⟩

namespace Report

open Keyed

/-- The object that an event of a stream belongs to: the one that it names or, for an event about a
value inside an object, the one that was named last. -/
def owner? (last : Option ObjectKey) : Event → Option ObjectKey
  | .objectRemoved key | .objectAdded key | .objectHeader key => some key
  | _ => last

def attributed (last : Option ObjectKey) : List Event → List (Option ObjectKey × Event)
  | [] => []
  | e :: rest => (owner? last e, e) :: attributed (owner? last e) rest

section

variable (keys : Set ObjectKey) [DecidablePred (· ∈ keys)]

def restrict (objects : List Object) : List Object :=
  objects.filter fun object => object.key ∈ keys

def eventsOf (events : List Event) : List Event :=
  ((attributed none events).filter fun entry => entry.1.any (· ∈ keys)).map Prod.snd

end

variable {rule : IdentityRule} {old new objects : List Object}

/-- The first event names the object, and the others are about values inside it. -/
def IsGroup (group : ObjectKey × List Event) : Prop :=
  ∃ e rest, group.2 = e :: rest ∧ (∀ last, owner? last e = some group.1) ∧
    ∀ f ∈ rest, f.isInside = true

def groups (rule : IdentityRule) (old new : List Object) : List (ObjectKey × List Event) :=
  (onlyIn (lastByKey old) (lastByKey new)).map (fun key => (key, [.objectRemoved key])) ++
    (onlyIn (lastByKey new) (lastByKey old)).map (fun key => (key, [.objectAdded key])) ++
    (changedPairs rule old new).map fun pair => (pair.1, pairEvents rule pair)

theorem events_eq_groups (rule : IdentityRule) (old new : List Object) :
    Report.events rule old new = (groups rule old new).flatMap Prod.snd := by
  rw [events_eq, groups, List.flatMap_append, List.flatMap_append, List.flatMap_map,
    List.flatMap_map, List.flatMap_map, List.map_eq_flatMap, List.map_eq_flatMap]

theorem isGroup_of_mem_groups : ∀ group ∈ groups rule old new, IsGroup group := by
  intro group hm
  rw [groups, List.mem_append, List.mem_append, List.mem_map, List.mem_map, List.mem_map] at hm
  rcases hm with (⟨key, _, rfl⟩ | ⟨key, _, rfl⟩) | ⟨⟨key, a, b⟩, _, rfl⟩
  · exact ⟨_, [], rfl, fun _ => rfl, nofun⟩
  · exact ⟨_, [], rfl, fun _ => rfl, nofun⟩
  · exact ⟨_, _, rfl, fun _ => rfl, objectEvents_isInside rule a b⟩

private theorem owner?_of_isInside {e : Event} (h : e.isInside = true) (last : Option ObjectKey) :
    owner? last e = last := by
  cases e <;> simp_all [Event.isInside, Event.path?, owner?]

private theorem attributed_inside (last : Option ObjectKey) {inside : List Event}
    (h : ∀ e ∈ inside, e.isInside = true) (rest : List Event) :
    attributed last (inside ++ rest) = inside.map (fun e => (last, e)) ++ attributed last rest := by
  induction inside with
  | nil => rfl
  | cons e inside ih =>
    obtain ⟨he, hinside⟩ := List.forall_mem_cons.mp h
    rw [List.cons_append, attributed, owner?_of_isInside he, ih hinside]
    rfl

/-- Every event of a group belongs to the object of the group, whatever comes before. -/
theorem attributed_groups (last : Option ObjectKey)
    {groups : List (ObjectKey × List Event)} (h : ∀ group ∈ groups, IsGroup group) :
    attributed last (groups.flatMap Prod.snd) =
      groups.flatMap fun group => group.2.map fun e => (some group.1, e) := by
  induction groups generalizing last with
  | nil => rfl
  | cons group groups ih =>
    obtain ⟨hgroup, hgroups⟩ := List.forall_mem_cons.mp h
    obtain ⟨e, rest, heq, howner, hinside⟩ := hgroup
    -- the first event of a group sets the object, so `last` does not reach beyond it
    rw [List.flatMap_cons, List.flatMap_cons, heq, List.cons_append, attributed, howner,
      attributed_inside _ hinside, ih _ hgroups]
    rfl

theorem map_snd_attributed (last : Option ObjectKey) (events : List Event) :
    (attributed last events).map Prod.snd = events := by
  induction events generalizing last with
  | nil => rfl
  | cons e events ih => rw [attributed, List.map_cons, ih]

variable {keys : Set ObjectKey} [DecidablePred (· ∈ keys)]

theorem eventsOf_sublist (events : List Event) : (eventsOf keys events).Sublist events := by
  have h := ((attributed none events).filter_sublist (p := fun entry =>
    entry.1.any (· ∈ keys))).map Prod.snd
  rwa [map_snd_attributed] at h

theorem eventsOf_groups {groups : List (ObjectKey × List Event)}
    (h : ∀ group ∈ groups, IsGroup group) :
    eventsOf keys (groups.flatMap Prod.snd) =
      (groups.filter fun group => group.1 ∈ keys).flatMap Prod.snd := by
  rw [eventsOf, attributed_groups none h]
  clear h
  induction groups with
  | nil => rfl
  | cons group groups ih =>
    rw [List.flatMap_cons, List.filter_append, List.map_append, ih, List.filter_map]
    by_cases hkey : group.1 ∈ keys
    · rw [List.filter_cons_of_pos (by simpa using hkey), List.flatMap_cons]
      simp [Function.comp_def, hkey]
    · rw [List.filter_cons_of_neg (by simpa using hkey)]
      simp [Function.comp_def, hkey]

theorem kept?_restrict (objects : List Object) (key : ObjectKey) :
    kept? (restrict keys objects) key = if key ∈ keys then kept? objects key else none := by
  rw [kept?, kept?, restrict, List.filter_filter]
  split
  next hkey =>
    congr 1
    apply List.filter_congr
    intro object _
    by_cases h : object.key = key <;> simp [h, hkey]
  next hkey =>
    rw [List.getLast?_eq_none_iff, List.filter_eq_nil_iff]
    intro object _ h
    simp only [Bool.and_eq_true, decide_eq_true_eq] at h
    exact hkey (h.1 ▸ h.2)

theorem mem_keys_restrict {key : ObjectKey} :
    key ∈ Report.keys (restrict keys objects) ↔ key ∈ keys ∧ key ∈ Report.keys objects := by
  rw [← kept?_isSome_iff, ← kept?_isSome_iff, kept?_restrict]
  split
  next hkey => exact (and_iff_right hkey).symm
  next hkey => exact iff_of_false Bool.false_ne_true fun h => hkey h.1

theorem onlyIn_restrict (old new : List Object) :
    onlyIn (lastByKey (restrict keys old)) (lastByKey (restrict keys new)) =
      (onlyIn (lastByKey old) (lastByKey new)).filter (· ∈ keys) := by
  -- both sides are increasing, so it is enough that they have the same members
  apply (increasing_onlyIn _ _).ext ((increasing_onlyIn old new).filter _)
  intro key
  rw [List.mem_filter, mem_onlyIn, mem_onlyIn, Finset.mem_sdiff, Finset.mem_sdiff,
    mem_keys_restrict, mem_keys_restrict, decide_eq_true_iff]
  tauto

theorem inBoth_restrict (old new : List Object) :
    inBoth (lastByKey (restrict keys old)) (lastByKey (restrict keys new)) =
      (inBoth (lastByKey old) (lastByKey new)).filter fun pair => pair.1 ∈ keys := by
  apply (sorted_inBoth _ _).ext_mem ((sorted_inBoth old new).filter _)
  rintro ⟨key, a, b⟩
  rw [List.mem_filter, mem_inBoth, mem_inBoth, kept?_restrict, kept?_restrict, decide_eq_true_iff]
  by_cases hkey : key ∈ keys <;> simp [hkey]

theorem changedPairs_restrict (rule : IdentityRule) (old new : List Object) :
    changedPairs rule (restrict keys old) (restrict keys new) =
      (changedPairs rule old new).filter fun pair => pair.1 ∈ keys := by
  rw [changedPairs, changedPairs, inBoth_restrict, List.filter_comm]

theorem groups_restrict (rule : IdentityRule) (old new : List Object) :
    groups rule (restrict keys old) (restrict keys new) =
      (groups rule old new).filter fun group => group.1 ∈ keys := by
  simp only [groups, onlyIn_restrict, changedPairs_restrict, List.filter_append, List.filter_map,
    Function.comp_def]

private theorem length_filter_add_compl {α : Type} (f : α → ObjectKey) (xs : List α) :
    (xs.filter fun x => f x ∈ keys).length + (xs.filter fun x => f x ∈ keysᶜ).length =
      xs.length := by
  have hcompl : (xs.filter fun x => f x ∈ keysᶜ) = xs.filter fun x => !decide (f x ∈ keys) := by
    simp
  rw [hcompl, ← List.length_eq_length_filter_add]

theorem stats_restrict_add (keys : Set ObjectKey) [DecidablePred (· ∈ keys)] (rule : IdentityRule)
    (old new : List Object) :
    stats rule (restrict keys old) (restrict keys new) +
        stats rule (restrict keysᶜ old) (restrict keysᶜ new) = stats rule old new := by
  have honly (xs ys : List Object) :
      (onlyIn (lastByKey (restrict keys xs)) (lastByKey (restrict keys ys))).length +
          (onlyIn (lastByKey (restrict keysᶜ xs)) (lastByKey (restrict keysᶜ ys))).length =
        (onlyIn (lastByKey xs) (lastByKey ys)).length := by
    rw [onlyIn_restrict, onlyIn_restrict]
    exact length_filter_add_compl id _
  have hboth (p : ObjectKey × Object × Object → Bool) :
      ((inBoth (lastByKey (restrict keys old)) (lastByKey (restrict keys new))).filter p).length +
          ((inBoth (lastByKey (restrict keysᶜ old))
            (lastByKey (restrict keysᶜ new))).filter p).length =
        ((inBoth (lastByKey old) (lastByKey new)).filter p).length := by
    rw [inBoth_restrict, inBoth_restrict, List.filter_comm p, List.filter_comm p]
    exact length_filter_add_compl Prod.fst _
  rw [stats, stats, stats]
  change Stats.mk (_ + _) (_ + _) (_ + _) (_ + _) = Stats.mk _ _ _ _
  rw [honly, honly, hboth, hboth]

/-- Objects are compared independently of one another. -/
theorem report_of_restricted (rule : IdentityRule) (old new : List Object) (keys : Set ObjectKey)
    [DecidablePred (· ∈ keys)] :
    events rule (restrict keys old) (restrict keys new) = eventsOf keys (events rule old new) ∧
      (events rule (restrict keys old) (restrict keys new)).Sublist (events rule old new) ∧
      blocks (events rule (restrict keys old) (restrict keys new)) =
        (blocks (events rule old new)).filter (fun block => block.1 ∈ keys) ∧
      stats rule old new = stats rule (restrict keys old) (restrict keys new) +
        stats rule (restrict keysᶜ old) (restrict keysᶜ new) := by
  have hevents : events rule (restrict keys old) (restrict keys new) =
      eventsOf keys (events rule old new) := by
    rw [events_eq_groups, events_eq_groups, eventsOf_groups isGroup_of_mem_groups, groups_restrict]
  refine ⟨hevents, ?sublist, ?blocks, (stats_restrict_add keys rule old new).symm⟩
  case sublist =>
    rw [hevents]
    exact eventsOf_sublist _
  case blocks =>
    rw [blocks_events, blocks_events, changedPairs_restrict, List.filter_map]
    rfl

end Report
end ManifestDiff
