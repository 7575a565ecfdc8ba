import ManifestDiff.Proofs.Diff.Silence
import ManifestDiff.Proofs.Report.Matching
/-!
# Reports as streams

A report is read by position: an event belongs to the object whose header came last. Read that way,
the stream falls apart into the keys of the removed and of the added objects and one block for each
object that changed, and a block falls apart into the parts of its object.
-/
namespace ManifestDiff

namespace Event

def isInside (event : Event) : Bool := event.path?.isSome

def removedKey? : Event → Option ObjectKey
  | .objectRemoved key => some key
  | _ => none

def addedKey? : Event → Option ObjectKey
  | .objectAdded key => some key
  | _ => none

def headerKey? : Event → Option ObjectKey
  | .objectHeader key => some key
  | _ => none

theorem isInside_of_isUnder {path : Path} {event : Event} (h : event.isUnder path = true) :
    event.isInside = true := by
  obtain ⟨rest, hp⟩ := (isUnder_iff).mp h
  rw [isInside, hp, Option.isSome_some]

theorem keys_of_isInside {event : Event} (h : event.isInside = true) :
    event.removedKey? = none ∧ event.addedKey? = none ∧ event.headerKey? = none := by
  cases event <;> simp_all [isInside, path?, removedKey?, addedKey?, headerKey?]

end Event

namespace Report

/-- Each header of a stream, with the events that follow it up to the next event about an object as
a whole. -/
def blocks : List Event → List (ObjectKey × List Event)
  | [] => []
  | .objectHeader key :: rest => (key, rest.takeWhile Event.isInside) :: blocks rest
  | _ :: rest => blocks rest

inductive Part where
  | apiVersion
  | kind
  | metadata
  | data
  | spec
deriving DecidableEq

namespace Part

def all : List Part := [apiVersion, kind, metadata, data, spec]

def name : Part → String
  | apiVersion => "apiVersion"
  | kind => "kind"
  | metadata => "metadata"
  | data => "data"
  | spec => "spec"

def path (part : Part) : Path := [.key part.name]

theorem nodup_all : all.Nodup := by decide

theorem key_name_injective : Function.Injective fun part : Part => Segment.key part.name := by
  intro p q h
  cases p <;> cases q <;> simp_all [name]

end Part

def fieldEvents (path : Path) (name a b : String) : List Event :=
  if a = b then [.unchanged path (.string a)]
  else [.modified path (some name) (.string a) (.string b)]

def sectionEvents (rule : IdentityRule) (path : Path) (a b : Option Node) : List Event :=
  match a.or b with
  | none => []
  | some present =>
    if sectionsEquivalent rule a b then [.unchanged path present]
    else .sectionHeader path :: rule.diff path (sectionContent a) (sectionContent b)

def partEvents (rule : IdentityRule) (a b : Object) (part : Part) : List Event :=
  match part with
  | .apiVersion => fieldEvents part.path part.name a.apiVersion b.apiVersion
  | .kind => fieldEvents part.path part.name a.kind b.kind
  | .metadata =>
    sectionEvents rule part.path (some (.mapping a.metadata)) (some (.mapping b.metadata))
  | .data => sectionEvents rule part.path a.data b.data
  | .spec => sectionEvents rule part.path a.spec b.spec

def objectEvents (rule : IdentityRule) (a b : Object) : List Event :=
  Part.all.flatMap (partEvents rule a b)

def pairEvents (rule : IdentityRule) : ObjectKey × Object × Object → List Event
  | (key, a, b) => .objectHeader key :: objectEvents rule a b

variable {rule : IdentityRule} {old new : List Object} {a b : Object}

private theorem filterMap_fieldSteps (name a b : String) :
    (fieldSteps name a b).filterMap Step.event? = fieldEvents [.key name] name a b := by
  rw [fieldSteps, fieldEvents]
  by_cases h : a = b
  · rw [if_pos h, if_pos (beq_iff_eq.mpr h)]
    rfl
  · rw [if_neg h, if_neg (mt beq_iff_eq.mp h)]
    rfl

private theorem filterMap_sectionSteps (name : String) (a b : Option Node) :
    (sectionSteps rule name a b).filterMap Step.event? = sectionEvents rule [.key name] a b := by
  rw [sectionSteps, sectionEvents]
  cases a.or b with
  | none => rfl
  | some present =>
    cases h : sectionsEquivalent rule a b with
    | true => rfl
    | false => rfl

private theorem filterMap_objectSteps (key : ObjectKey) (a b : Object) :
    (objectSteps rule key a b).filterMap Step.event? =
      .objectHeader key :: objectEvents rule a b := by
  have hheader : Step.event? (.event (.objectHeader key)) = some (.objectHeader key) := rfl
  rw [objectSteps, List.filterMap_cons_some hheader]
  simp only [List.filterMap_append, filterMap_fieldSteps, filterMap_sectionSteps, objectEvents,
    Part.all, List.flatMap_cons, List.flatMap_nil, List.append_assoc, List.append_nil]
  rfl

private theorem filterMap_event?_notes {α : Type} (f : α → Note) (xs : List α) :
    (xs.map fun x => Step.note (f x)).filterMap Step.event? = [] := by
  rw [List.filterMap_map, List.filterMap_eq_nil_iff]
  exact fun _ _ => rfl

private theorem filterMap_event?_events {α : Type} (f : α → Event) (xs : List α) :
    (xs.map fun x => Step.event (f x)).filterMap Step.event? = xs.map f := by
  rw [List.filterMap_map]
  exact congrFun (List.filterMap_eq_map (f := f)) xs

theorem events_eq (rule : IdentityRule) (old new : List Object) :
    events rule old new =
      (onlyIn (lastByKey old) (lastByKey new)).map .objectRemoved ++
        (onlyIn (lastByKey new) (lastByKey old)).map .objectAdded ++
        (changedPairs rule old new).flatMap (pairEvents rule) := by
  have hchanged (pairs : List (ObjectKey × Object × Object)) :
      (pairs.flatMap fun (key, a, b) =>
          if objectsEquivalent rule a b then [] else objectSteps rule key a b).filterMap
            Step.event? =
        (pairs.filter fun (_, a, b) => !objectsEquivalent rule a b).flatMap (pairEvents rule) := by
    induction pairs with
    | nil => rfl
    | cons pair pairs ih =>
      obtain ⟨key, a, b⟩ := pair
      rw [List.flatMap_cons, List.filterMap_append, ih]
      cases h : objectsEquivalent rule a b with
      | true => simp [h]
      | false => simp [h, filterMap_objectSteps, pairEvents]
  rw [events, steps, changedPairs, ← hchanged]
  simp only [List.filterMap_append, filterMap_event?_notes, filterMap_event?_events,
    List.nil_append]
  rfl

private theorem fieldEvents_isUnder (path : Path) (name a b : String) :
    ∀ e ∈ fieldEvents path name a b, e.isUnder path = true := by
  rw [fieldEvents]
  split
  · rw [List.forall_mem_singleton]
    exact Event.isUnder_of_path? rfl
  · rw [List.forall_mem_singleton]
    exact Event.isUnder_of_path? rfl

private theorem sectionEvents_isUnder (path : Path) (a b : Option Node) :
    ∀ e ∈ sectionEvents rule path a b, e.isUnder path = true := by
  rw [sectionEvents]
  cases a.or b with
  | none => exact List.forall_mem_nil _
  | some present =>
    dsimp only
    split
    · rw [List.forall_mem_singleton]
      exact Event.isUnder_of_path? rfl
    · rw [List.forall_mem_cons]
      exact ⟨Event.isUnder_of_path? rfl, IdentityRule.diff_isUnder path _ _⟩

theorem partEvents_isUnder (rule : IdentityRule) (a b : Object) (part : Part) :
    ∀ e ∈ partEvents rule a b part, e.isUnder part.path = true := by
  cases part with
  | apiVersion => exact fieldEvents_isUnder _ _ _ _
  | kind => exact fieldEvents_isUnder _ _ _ _
  | metadata =>
    exact sectionEvents_isUnder _ (some (.mapping a.metadata)) (some (.mapping b.metadata))
  | data => exact sectionEvents_isUnder _ _ _
  | spec => exact sectionEvents_isUnder _ _ _

theorem filter_objectEvents (rule : IdentityRule) (a b : Object) (part : Part) :
    (objectEvents rule a b).filter (Event.isUnder part.path) = partEvents rule a b part := by
  have hm : part ∈ Part.all := by cases part <;> decide
  have hunder : ∀ part ∈ Part.all, ∀ e ∈ partEvents rule a b part,
      e.isUnder (Path.child .root (.key part.name)) = true :=
    fun part _ => partEvents_isUnder rule a b part
  have hparts := Event.filter_flatMap_isUnder Part.key_name_injective Part.nodup_all hunder part
  rwa [if_pos hm] at hparts

theorem objectEvents_isInside (rule : IdentityRule) (a b : Object) :
    ∀ e ∈ objectEvents rule a b, e.isInside = true := by
  intro e he
  obtain ⟨part, _, he⟩ := List.mem_flatMap.mp he
  exact Event.isInside_of_isUnder (partEvents_isUnder rule a b part e he)

theorem map_fst_blocks (events : List Event) :
    (blocks events).map Prod.fst = events.filterMap Event.headerKey? := by
  induction events with
  | nil => rfl
  | cons e events ih =>
    cases e with
    | objectHeader key => exact congrArg (List.cons key) ih
    | _ => exact ih

private theorem blocks_append {xs : List Event} (h : ∀ e ∈ xs, e.headerKey? = none)
    (rest : List Event) : blocks (xs ++ rest) = blocks rest := by
  induction xs with
  | nil => rfl
  | cons e xs ih =>
    obtain ⟨he, hxs⟩ := List.forall_mem_cons.mp h
    cases e with
    | objectHeader key => cases he
    | _ => exact ih hxs

/-- A header ends the block before it, so the blocks are read as they were written. -/
private theorem blocks_flatMap {α : Type} (f : α → ObjectKey × List Event) {xs : List α}
    (h : ∀ x ∈ xs, ∀ e ∈ (f x).2, e.isInside = true) :
    blocks (xs.flatMap fun x => .objectHeader (f x).1 :: (f x).2) = xs.map f := by
  induction xs with
  | nil => rfl
  | cons x xs ih =>
    obtain ⟨hx, hxs⟩ := List.forall_mem_cons.mp h
    have hnext : (xs.flatMap fun x => .objectHeader (f x).1 :: (f x).2).takeWhile
        Event.isInside = [] := by
      cases xs with
      | nil => rfl
      | cons y ys => rfl
    rw [List.flatMap_cons, List.cons_append, blocks, List.takeWhile_append_of_pos hx, hnext,
      List.append_nil, blocks_append fun e he => (Event.keys_of_isInside (hx e he)).2.2, ih hxs]
    rfl

theorem blocks_events (rule : IdentityRule) (old new : List Object) :
    blocks (events rule old new) =
      (changedPairs rule old new).map fun (key, a, b) => (key, objectEvents rule a b) := by
  rw [events_eq, blocks_append]
  · exact blocks_flatMap (fun (key, a, b) => (key, objectEvents rule a b)) fun pair _ =>
      objectEvents_isInside rule pair.2.1 pair.2.2
  · simp only [List.mem_append, List.mem_map]
    rintro _ (⟨key, _, rfl⟩ | ⟨key, _, rfl⟩)
    · rfl
    · rfl

theorem mem_blocks_events {key : ObjectKey} {block : List Event} :
    (key, block) ∈ blocks (events rule old new) ↔ ∃ a b,
      kept? old key = some a ∧ kept? new key = some b ∧ Differ rule a b ∧
        objectEvents rule a b = block := by
  rw [blocks_events, List.mem_map]
  constructor
  · rintro ⟨⟨_, a, b⟩, hm, he⟩
    cases he
    obtain ⟨ha, hb, hdiffer⟩ := (mem_changedPairs).mp hm
    exact ⟨a, b, ha, hb, hdiffer, rfl⟩
  · rintro ⟨a, b, ha, hb, hdiffer, rfl⟩
    exact ⟨(key, a, b), (mem_changedPairs).mpr ⟨ha, hb, hdiffer⟩, rfl⟩

theorem exists_block_of_isInside {e : Event} (he : e ∈ events rule old new)
    (hinside : e.isInside = true) :
    ∃ key block, (key, block) ∈ blocks (events rule old new) ∧ e ∈ block := by
  rw [events_eq, List.mem_append, List.mem_append] at he
  rcases he with (he | he) | he
  · obtain ⟨key, _, rfl⟩ := List.mem_map.mp he
    cases hinside
  · obtain ⟨key, _, rfl⟩ := List.mem_map.mp he
    cases hinside
  · obtain ⟨⟨key, a, b⟩, hm, he⟩ := List.mem_flatMap.mp he
    rw [pairEvents, List.mem_cons] at he
    rcases he with rfl | he
    · cases hinside
    · rw [blocks_events]
      exact ⟨key, _, List.mem_map_of_mem hm, he⟩

private theorem filterMap_blocks {f : Event → Option ObjectKey}
    (hheader : ∀ key, f (.objectHeader key) = none)
    (hinside : ∀ e : Event, e.isInside = true → f e = none)
    (pairs : List (ObjectKey × Object × Object)) :
    (pairs.flatMap (pairEvents rule)).filterMap f = [] := by
  rw [List.filterMap_eq_nil_iff, List.forall_mem_flatMap]
  rintro ⟨key, a, b⟩ _
  rw [pairEvents, List.forall_mem_cons]
  exact ⟨hheader key, fun e he => hinside e (objectEvents_isInside rule a b e he)⟩

theorem filterMap_removedKey? (rule : IdentityRule) (old new : List Object) :
    (events rule old new).filterMap Event.removedKey? =
      onlyIn (lastByKey old) (lastByKey new) := by
  rw [events_eq, List.filterMap_append, List.filterMap_append, filterMap_blocks (fun _ => rfl)
    fun e he => (Event.keys_of_isInside he).1, List.filterMap_map, List.filterMap_map]
  simp [Function.comp_def, Event.removedKey?]

theorem filterMap_addedKey? (rule : IdentityRule) (old new : List Object) :
    (events rule old new).filterMap Event.addedKey? =
      onlyIn (lastByKey new) (lastByKey old) := by
  rw [events_eq, List.filterMap_append, List.filterMap_append, filterMap_blocks (fun _ => rfl)
    fun e he => (Event.keys_of_isInside he).2.1, List.filterMap_map, List.filterMap_map]
  simp [Function.comp_def, Event.addedKey?]

end Report
end ManifestDiff
