import ManifestDiff.Diff.Differ
import ManifestDiff.Manifest.Object
/-!
# Reports

The comparison of two collections of objects. Objects are matched by their keys, and of several
objects with one key the last one counts. First come the objects that were removed, then those that
were added, then the differences of each object on both sides, each group in the order of the keys.
-/
namespace ManifestDiff.Report

def lastByKey (objects : List Object) : List (ObjectKey × Object) :=
  Keyed.ofList (objects.map fun object => (object.key, object))

/-- The keys of the objects whose key is among the seen ones or belongs to an earlier object. -/
def repeatedKeys (seen : List ObjectKey) : List Object → List ObjectKey
  | [] => []
  | object :: rest =>
    (if seen.contains object.key then [object.key] else []) ++
      repeatedKeys (object.key :: seen) rest

def sectionContent (content : Option Node) : Node := content.getD .empty

def sectionsEquivalent (rule : IdentityRule) (a b : Option Node) : Bool :=
  rule.equivalent (sectionContent a) (sectionContent b)

/-- Two objects with one key that the report has nothing to say about. -/
def objectsEquivalent (rule : IdentityRule) (a b : Object) : Bool :=
  a.apiVersion == b.apiVersion && a.kind == b.kind &&
    rule.equivalent (.mapping a.metadata) (.mapping b.metadata) &&
    sectionsEquivalent rule a.data b.data && sectionsEquivalent rule a.spec b.spec

/-- A field that every object has is listed even when it did not change. -/
def fieldSteps (name a b : String) : List Step :=
  if a == b then [.event (.unchanged [.key name] (.string a))]
  else [.event (.modified [.key name] (some name) (.string a) (.string b))]

/-- A section that is absent on both sides is left out, and an unchanged one is listed. -/
def sectionSteps (rule : IdentityRule) (name : String) (a b : Option Node) : List Step :=
  match a.or b with
  | none => []
  | some present =>
    if sectionsEquivalent rule a b then [.event (.unchanged [.key name] present)]
    else
      .event (.sectionHeader [.key name]) ::
        rule.walk [.key name] (sectionContent a) (sectionContent b)

def objectSteps (rule : IdentityRule) (key : ObjectKey) (a b : Object) : List Step :=
  .event (.objectHeader key) ::
    (fieldSteps "apiVersion" a.apiVersion b.apiVersion ++ fieldSteps "kind" a.kind b.kind ++
      sectionSteps rule "metadata" (some (.mapping a.metadata)) (some (.mapping b.metadata)) ++
      sectionSteps rule "data" a.data b.data ++ sectionSteps rule "spec" a.spec b.spec)

def onlyIn (xs ys : List (ObjectKey × Object)) : List ObjectKey :=
  (xs.map Prod.fst).filter fun key => !Keyed.contains key ys

def inBoth (xs ys : List (ObjectKey × Object)) : List (ObjectKey × Object × Object) :=
  xs.filterMap fun (key, a) => (Keyed.find? key ys).map fun b => (key, a, b)

def steps (rule : IdentityRule) (old new : List Object) : List Step :=
  let xs := lastByKey old
  let ys := lastByKey new
  (repeatedKeys [] old).map (fun key => .note (.duplicateKey key)) ++
    (repeatedKeys [] new).map (fun key => .note (.duplicateKey key)) ++
    [.note (.comparing xs.length ys.length)] ++
    (onlyIn xs ys).map (fun key => .event (.objectRemoved key)) ++
    (onlyIn ys xs).map (fun key => .event (.objectAdded key)) ++
    (inBoth xs ys).flatMap fun (key, a, b) =>
      if objectsEquivalent rule a b then [] else objectSteps rule key a b

def events (rule : IdentityRule) (old new : List Object) : List Event :=
  (steps rule old new).filterMap Step.event?

def notes (rule : IdentityRule) (old new : List Object) : List Note :=
  (steps rule old new).filterMap Step.note?

def stats (rule : IdentityRule) (old new : List Object) : Stats :=
  let xs := lastByKey old
  let ys := lastByKey new
  let common := inBoth xs ys
  { added := (onlyIn ys xs).length
    removed := (onlyIn xs ys).length
    changed := (common.filter fun (_, a, b) => !objectsEquivalent rule a b).length
    unchanged := (common.filter fun (_, a, b) => objectsEquivalent rule a b).length }

open Emission

variable {σ ε : Type}

/-- Of several objects with one key the last one is kept. -/
def emitIndex (objects : List Object) : Emission σ ε (List (ObjectKey × Object)) := do
  let mut index := []
  for object in objects do
    if Keyed.contains object.key index then
      note (.duplicateKey object.key)
    index := Keyed.insert object.key object index
  return index

def emitField (sink : Sink σ ε) (name a b : String) : Emission σ ε Unit :=
  if a == b then emit sink (.unchanged [.key name] (.string a))
  else emit sink (.modified [.key name] (some name) (.string a) (.string b))

def emitSection (rule : IdentityRule) (sink : Sink σ ε) (name : String) (a b : Option Node) :
    Emission σ ε Unit := do
  match a.or b with
  | none => pure ()
  | some present =>
    if sectionsEquivalent rule a b then
      emit sink (.unchanged [.key name] present)
    else
      emit sink (.sectionHeader [.key name])
      rule.emitDiff sink [.key name] (sectionContent a) (sectionContent b)

def emitObject (rule : IdentityRule) (sink : Sink σ ε) (a b : Object) : Emission σ ε Unit := do
  emitField sink "apiVersion" a.apiVersion b.apiVersion
  emitField sink "kind" a.kind b.kind
  emitSection rule sink "metadata" (some (.mapping a.metadata)) (some (.mapping b.metadata))
  emitSection rule sink "data" a.data b.data
  emitSection rule sink "spec" a.spec b.spec

/-- The report counts the objects while it is handed to the sink. -/
def emitReport (rule : IdentityRule) (sink : Sink σ ε) (old new : List Object) :
    Emission σ ε Stats := do
  let old ← emitIndex old
  let new ← emitIndex new
  note (.comparing old.length new.length)
  let mut stats : Stats := {}
  for key in onlyIn old new do
    emit sink (.objectRemoved key)
    stats := { stats with removed := stats.removed + 1 }
  for key in onlyIn new old do
    emit sink (.objectAdded key)
    stats := { stats with added := stats.added + 1 }
  for (key, a) in old do
    let some b := Keyed.find? key new | continue
    if objectsEquivalent rule a b then
      stats := { stats with unchanged := stats.unchanged + 1 }
    else
      stats := { stats with changed := stats.changed + 1 }
      emit sink (.objectHeader key)
      emitObject rule sink a b
  return stats

end ManifestDiff.Report
