import ManifestDiff.Diff.Walk
/-!
# Comparisons that report to a sink

A comparison hands its events to a sink one by one and logs notes on its way. The sink may fail on
any event, and then the comparison ends there with the fault of the sink.
-/
namespace ManifestDiff

/-- With an event the sink passes to another state and tells whether it failed on the event. -/
abbrev Sink (σ ε : Type) := σ → Event → σ × Option ε

structure Progress (σ : Type) where
  state : σ
  notes : List Note

abbrev Emission (σ ε : Type) := ExceptT ε (StateM (Progress σ))

namespace Emission

variable {σ ε : Type}

def emit (sink : Sink σ ε) (event : Event) : Emission σ ε Unit := do
  let progress ← get
  let (state, fault?) := sink progress.state event
  set { progress with state }
  match fault? with
  | some fault => throw fault
  | none => pure ()

def note (n : Note) : Emission σ ε Unit :=
  modify fun progress => { progress with notes := progress.notes ++ [n] }

/-- What comes of a program whose sink is in this state, with an empty log. -/
def start {α : Type} (program : Emission σ ε α) (state : σ) : Except ε α × Progress σ :=
  program.run.run ⟨state, []⟩

end Emission

namespace IdentityRule

open Emission

variable {σ ε : Type}

mutual

def emitDiff (rule : IdentityRule) (sink : Sink σ ε) (path : Path) (a b : Node) :
    Emission σ ε Unit :=
  match rule.strategy? a b, a, b with
  | none, _, _ => pure ()
  | some .mapping, .mapping xs, .mapping ys => emitMappings rule sink path xs ys
  | some .identityList, .list xs, .list ys => do
    match _hold : rule.index xs, rule.index ys with
    | some old, some new =>
      emitIdentities rule sink path old new _hold (xs.length != ys.length)
    | _, _ =>
      note (.unmatched path)
      emitPositions rule sink path xs ys
  | some .positionalList, .list xs, .list ys => emitPositions rule sink path xs ys
  | _, a, b => emit sink (.modified path none a b)
termination_by (sizeOf a, 0)

def emitMappings (rule : IdentityRule) (sink : Sink σ ε) (path : Path)
    (old new : List (String × Node)) : Emission σ ε Unit := do
  for key in Keyed.unionKeys old new do
    let child := path.child (.key key)
    match _hold : Keyed.find? key old, Keyed.find? key new with
    | none, some w => emit sink (.added child w)
    | some v, none => emit sink (.removed child v)
    | some v, some w =>
      unless rule.equivalent v w do
        emit sink (.nested child)
        emitDiff rule sink child v w
    | none, none => pure ()
termination_by (sizeOf old, 0)
decreasing_by exact Prod.Lex.left _ _ (Keyed.sizeOf_lt_of_find? ‹_›)

/-- Lists of different lengths are replaced; their items are not aligned. -/
def emitPositions (rule : IdentityRule) (sink : Sink σ ε) (path : Path) (old new : List Node) :
    Emission σ ε Unit :=
  if old.length != new.length then emit sink (.modified path none (.list old) (.list new))
  else emitItems rule sink path 0 old new
termination_by (sizeOf old, 1)

def emitItems (rule : IdentityRule) (sink : Sink σ ε) (path : Path) (index : Nat) :
    List Node → List Node → Emission σ ε Unit
  | v :: old, w :: new => do
    unless rule.equivalent v w do
      emit sink (.nested (path.child (.index index)))
      emitDiff rule sink (path.child (.index index)) v w
    emitItems rule sink path (index + 1) old new
  | _, _ => pure ()
termination_by old => (sizeOf old, 0)

/-- Of elements that come or go it is told whether the lists differ in length. -/
def emitIdentities (rule : IdentityRule) (sink : Sink σ ε) (path : Path) {items : List Node}
    (old new : List (String × Node)) (_h : rule.index items = some old) (tainted : Bool) :
    Emission σ ε Unit := do
  for id in Keyed.unionKeys old new do
    let child := path.child (.identity rule.label id)
    match _hold : Keyed.find? id old, Keyed.find? id new with
    | none, some w => emit sink (.structuralAddition child id w tainted)
    | some v, none => emit sink (.structuralRemoval child id v tainted)
    | some v, some w =>
      unless rule.equivalent v w do
        emit sink (.nested child)
        emitDiff rule sink child v w
    | none, none => pure ()
termination_by (sizeOf items, 0)
decreasing_by exact Prod.Lex.left _ _ (sizeOf_lt_of_index ‹_› ‹_›)

end

end IdentityRule
end ManifestDiff
