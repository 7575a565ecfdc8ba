import ManifestDiff.Diff.Equivalence
import ManifestDiff.Diff.Event
import ManifestDiff.Log.Note
/-!
# The walk over two values

The comparison of an old and a new value, as the list of its steps: the events it reports and the
notes it logs, in order. Equivalent values take no step. Keys and identities are visited in
increasing order, so the steps of one value stand between those of its neighbours.
-/
namespace ManifestDiff

inductive Step where
  | event (e : Event)
  | note (n : Note)
deriving Inhabited

def Step.event? : Step → Option Event
  | .event e => some e
  | .note _ => none

def Step.note? : Step → Option Note
  | .note n => some n
  | .event _ => none

/-- What becomes of the steps of a comparison: the last state of the sink, the notes that were
logged, and the fault of the event that failed. -/
structure Delivery (σ ε : Type) where
  state : σ
  notes : List Note
  fault : Option ε

/-- Takes the steps in order, up to the first event that fails. -/
def deliver {σ ε : Type} (emit : σ → Event → σ × Option ε) : σ → List Step → Delivery σ ε
  | state, [] => ⟨state, [], none⟩
  | state, .note n :: rest =>
    let delivery := deliver emit state rest
    { delivery with notes := n :: delivery.notes }
  | state, .event e :: rest =>
    match emit state e with
    | (state, some fault) => ⟨state, [], some fault⟩
    | (state, none) => deliver emit state rest

namespace IdentityRule

mutual

def walk (rule : IdentityRule) (path : Path) : Node → Node → List Step
  | .mapping xs, .mapping ys =>
    if rule.equivalent (.mapping xs) (.mapping ys) then []
    else (Keyed.unionKeys xs ys).flatMap fun k =>
      walkEntry rule (path.child (.key k)) k xs (Keyed.find? k ys)
  | .list xs, .list ys =>
    if rule.equivalent (.list xs) (.list ys) then []
    else if rule.matchesByIdentity xs ys then
      (Keyed.sortKeys (rule.identities xs ++ rule.identities ys)).flatMap fun id =>
        walkElement rule (path.child (.identity rule.label id)) id (xs.length != ys.length) xs
          (rule.find? id ys)
    else
      (if rule.areIdentityLists xs ys then [.note (.unmatched path)] else []) ++
        if xs.length == ys.length then walkItems rule path 0 xs ys
        else [.event (.modified path none (.list xs) (.list ys))]
  | a, b => if rule.equivalent a b then [] else [.event (.modified path none a b)]
termination_by structural a => a

/-- The steps for the entry under a key: the old one is looked up, the new one is given. -/
def walkEntry (rule : IdentityRule) (path : Path) (key : String) :
    List (String × Node) → Option Node → List Step
  | [], none => []
  | [], some w => [.event (.added path w)]
  | (k, v) :: xs, w? =>
    if k = key then
      match w? with
      | none => [.event (.removed path v)]
      | some w =>
        if rule.equivalent v w then [] else .event (.nested path) :: walk rule path v w
    else walkEntry rule path key xs w?
termination_by structural xs => xs

/-- The steps for the element with an identity: the old one is looked up, the new one is given. -/
def walkElement (rule : IdentityRule) (path : Path) (id : String) (tainted : Bool) :
    List Node → Option Node → List Step
  | [], none => []
  | [], some w => [.event (.structuralAddition path id w tainted)]
  | v :: xs, w? =>
    if rule.identityOf v = some id then
      match w? with
      | none => [.event (.structuralRemoval path id v tainted)]
      | some w =>
        if rule.equivalent v w then [] else .event (.nested path) :: walk rule path v w
    else walkElement rule path id tainted xs w?
termination_by structural xs => xs

def walkItems (rule : IdentityRule) (path : Path) (index : Nat) :
    List Node → List Node → List Step
  | v :: xs, w :: ys =>
    (if rule.equivalent v w then []
      else .event (.nested (path.child (.index index))) ::
        walk rule (path.child (.index index)) v w) ++ walkItems rule path (index + 1) xs ys
  | _, _ => []
termination_by structural xs => xs

end

/-- The events of the comparison of an old and a new value at a path. -/
def diff (rule : IdentityRule) (path : Path) (a b : Node) : List Event :=
  (rule.walk path a b).filterMap Step.event?

def diffNotes (rule : IdentityRule) (path : Path) (a b : Node) : List Note :=
  (rule.walk path a b).filterMap Step.note?

end IdentityRule
end ManifestDiff
