import ManifestDiff.Keyed
import ManifestDiff.Number.Numeral
import ManifestDiff.Number.Layout
/-!
# Nodes

A node is one value of a document tree: a mapping, a list or a scalar. Scalars of different types are
never equal: the integer 1, the float 1.0 and the string "1" are three values. The entries of a
mapping are kept in increasing order of their keys, which `Node.WellFormed` states for a whole
tree.
-/
namespace ManifestDiff

/-- An integer is unsigned only when a signed word does not hold it, as long as it was decoded. -/
inductive Scalar where
  | null
  | bool (b : Bool)
  | int (i : Int64)
  | uint (n : UInt64)
  | float (x : Binary64)
  | string (s : String)
deriving DecidableEq, Repr, Inhabited

/-- Numbers are listed with all their digits and without an exponent. -/
def Layout.listing : Layout := ⟨.up, none, none, false, false⟩

namespace Scalar

def string? : Scalar → Option String
  | .string s => some s
  | _ => none

/-- Equality of values; NaN equals itself, so a value never differs from itself. -/
def equal : Scalar → Scalar → Bool
  | .null, .null => true
  | .bool a, .bool b => a == b
  | .int a, .int b => a == b
  | .uint a, .uint b => a == b
  | .float a, .float b => a.equal b
  | .string a, .string b => a == b
  | _, _ => false

/-- The scalar as it is listed: strings as they are, without quotes. -/
def display : Scalar → String
  | .null => "null"
  | .bool b => if b then "true" else "false"
  | .int i => toString i.toInt
  | .uint n => toString n.toNat
  | .float .nan => ".nan"
  | .float (.infinite negative) => if negative then "-.inf" else ".inf"
  | .float (.finite negative index) => Layout.listing.finite negative index
  | .string s => s

def ofNumber : Number → Scalar
  | .natural n => if n.toNat ≤ Int64.maxValue.toInt then .int (Int64.ofNat n.toNat) else .uint n
  | .negative i => .int i
  | .float x => .float x

end Scalar

inductive Node where
  | mapping (entries : List (String × Node))
  | list (items : List Node)
  | scalar (value : Scalar)
deriving Inhabited

namespace Node

inductive Kind where
  | mapping
  | list
  | scalar
deriving DecidableEq, Repr

def Kind.name : Kind → String
  | .mapping => "mapping"
  | .list => "list"
  | .scalar => "scalar"

def kind : Node → Kind
  | .mapping _ => .mapping
  | .list _ => .list
  | .scalar _ => .scalar

def null : Node := .scalar .null

def string (s : String) : Node := .scalar (.string s)

def empty : Node := .mapping []

def entries? : Node → Option (List (String × Node))
  | .mapping entries => some entries
  | _ => none

def items? : Node → Option (List Node)
  | .list items => some items
  | _ => none

def string? : Node → Option String
  | .scalar value => value.string?
  | _ => none

def isNull : Node → Bool
  | .scalar .null => true
  | _ => false

/-- The value under a key, when the node is a mapping that has it. -/
def get? (key : String) (node : Node) : Option Node :=
  node.entries?.bind (Keyed.find? key)

mutual

/-- Structural equality: the order of a list matters, the types of scalars matter, and mappings
agree entry by entry. -/
def equal : Node → Node → Bool
  | .mapping xs, .mapping ys => equalEntries xs ys
  | .list xs, .list ys => equalItems xs ys
  | .scalar a, .scalar b => a.equal b
  | _, _ => false

def equalEntries : List (String × Node) → List (String × Node) → Bool
  | [], [] => true
  | (k, v) :: xs, (l, w) :: ys => k == l && equal v w && equalEntries xs ys
  | _, _ => false

def equalItems : List Node → List Node → Bool
  | [], [] => true
  | v :: xs, w :: ys => equal v w && equalItems xs ys
  | _, _ => false

end

mutual

/-- Every mapping of the tree has its keys in strictly increasing order. -/
def WellFormed : Node → Prop
  | .mapping entries => Keyed.Sorted entries ∧ WellFormedEntries entries
  | .list items => WellFormedItems items
  | .scalar _ => True

def WellFormedEntries : List (String × Node) → Prop
  | [] => True
  | (_, v) :: rest => WellFormed v ∧ WellFormedEntries rest

def WellFormedItems : List Node → Prop
  | [] => True
  | v :: rest => WellFormed v ∧ WellFormedItems rest

end

mutual

def display : Node → String
  | .mapping entries => "\x7b" ++ displayEntries entries ++ "\x7d"
  | .list items => "[" ++ displayItems items ++ "]"
  | .scalar value => value.display

def displayEntries : List (String × Node) → String
  | [] => ""
  | [(k, v)] => k ++ ": " ++ display v
  | (k, v) :: rest => k ++ ": " ++ display v ++ ", " ++ displayEntries rest

def displayItems : List Node → String
  | [] => ""
  | [v] => display v
  | v :: rest => display v ++ ", " ++ displayItems rest

end

end Node
end ManifestDiff
