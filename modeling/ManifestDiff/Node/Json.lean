import ManifestDiff.Json.Value
import ManifestDiff.Node.Basic
/-!
# Nodes and JSON values

Every JSON value is a node. A node is a JSON value again except where it holds NaN or an infinity,
which JSON has no number for and which become null.
-/
namespace ManifestDiff

def Number.ofInt64 (i : Int64) : Number :=
  if i < 0 then .negative i else .natural (UInt64.ofNat i.toInt.toNat)

namespace Scalar

def toJson : Scalar → Json.Value
  | .null => .null
  | .bool b => .bool b
  | .int i => .number (.ofInt64 i)
  | .uint n => .number (.natural n)
  | .float x => if x.isFinite then .number (.float x) else .null
  | .string s => .string s

end Scalar

namespace Node

mutual

def ofJson : Json.Value → Node
  | .null => .null
  | .bool b => .scalar (.bool b)
  | .number n => .scalar (.ofNumber n)
  | .string s => .string s
  | .array items => .list (ofJsonItems items)
  | .object members => .mapping (Keyed.ofList (ofJsonMembers members))

def ofJsonItems : List Json.Value → List Node
  | [] => []
  | v :: rest => ofJson v :: ofJsonItems rest

def ofJsonMembers : List (String × Json.Value) → List (String × Node)
  | [] => []
  | (k, v) :: rest => (k, ofJson v) :: ofJsonMembers rest

end

mutual

def toJson : Node → Json.Value
  | .mapping entries => .object (toJsonMembers entries)
  | .list items => .array (toJsonItems items)
  | .scalar value => value.toJson

def toJsonItems : List Node → List Json.Value
  | [] => []
  | v :: rest => toJson v :: toJsonItems rest

def toJsonMembers : List (String × Node) → List (String × Json.Value)
  | [] => []
  | (k, v) :: rest => (k, toJson v) :: toJsonMembers rest

end

end Node
end ManifestDiff
