import ManifestDiff.Manifest.Object
import ManifestDiff.Node.Json
/-!
# Events

What a comparison reports, piece by piece. An event about a value carries its path, which gives
context and plays no part in the comparison; a label, where one is written, is the last segment of
that path.
-/
namespace ManifestDiff

inductive Segment where
  | key (key : String)
  | index (index : Nat)
  | identity (label id : String)
deriving DecidableEq, Repr

def Segment.display : Segment → String
  | .key k => k
  | .index i => "[" ++ toString i ++ "]"
  | .identity label id => label ++ "[" ++ id ++ "]"

abbrev Path := List Segment

namespace Path

def root : Path := []

def child (path : Path) (segment : Segment) : Path := path ++ [segment]

def depth (path : Path) : Nat := path.length

/-- The segments after the first one, each behind a point unless it is an index. -/
def displayTail : List Segment → String
  | [] => ""
  | .index i :: rest => (Segment.index i).display ++ displayTail rest
  | segment :: rest => "." ++ segment.display ++ displayTail rest

/-- Dotted notation, such as `spec.containers.container[nginx].ports[0]`. -/
def display : Path → String
  | [] => ""
  | segment :: rest => segment.display ++ displayTail rest

end Path

inductive Event where
  | objectRemoved (object : ObjectKey)
  | objectAdded (object : ObjectKey)
  | objectHeader (object : ObjectKey)
  | sectionHeader (path : Path)
  | unchanged (path : Path) (value : Node)
  | added (path : Path) (value : Node)
  | removed (path : Path) (value : Node)
  | nested (path : Path)
  /-- The value is replaced as a whole; with a key it is written together with the key. -/
  | modified (path : Path) (key : Option String) (old new : Node)
  | structuralAddition (path : Path) (identity : String) (value : Node) (tainted : Bool)
  | structuralRemoval (path : Path) (identity : String) (value : Node) (tainted : Bool)
deriving Inhabited

namespace Event

def path? : Event → Option Path
  | .objectRemoved _ | .objectAdded _ | .objectHeader _ => none
  | .sectionHeader path | .unchanged path _ | .added path _ | .removed path _ | .nested path
  | .modified path _ _ _ | .structuralAddition path _ _ _ | .structuralRemoval path _ _ _ =>
    some path

def isChange : Event → Bool
  | .objectHeader _ | .sectionHeader _ | .unchanged .. | .nested _ => false
  | _ => true

end Event
end ManifestDiff
