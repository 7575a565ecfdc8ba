import ManifestDiff.Node.Json
import ManifestDiff.Yaml.Value
/-!
# Nodes and YAML values

A YAML value becomes a node when every key of every mapping is a scalar and no two keys of one
mapping have the same text. Tags are dropped. The first offence in document order is reported: for
each entry the key is looked at before the value.
-/
namespace ManifestDiff

inductive KeyError where
  | unsupportedSequence
  | unsupportedMapping
  | duplicate (key : String)
deriving DecidableEq, Repr

namespace KeyError

def message : KeyError → String
  | .unsupportedSequence =>
    "unsupported mapping key: sequence keys cannot be used as field names"
  | .unsupportedMapping =>
    "unsupported mapping key: mapping keys cannot be used as field names"
  | .duplicate key => "duplicate mapping key '" ++ key ++ "'"

end KeyError

/-- The text by which a key names a field: a string as it is, another scalar as it is listed. -/
def Yaml.Value.keyText : Yaml.Value → Except KeyError String
  | .null => .ok Scalar.null.display
  | .bool b => .ok (Scalar.bool b).display
  | .number n => .ok (Scalar.ofNumber n).display
  | .string s => .ok s
  | .sequence _ => .error .unsupportedSequence
  | .mapping _ => .error .unsupportedMapping
  | .tagged _ value => keyText value

namespace Node

mutual

def ofYaml : Yaml.Value → Except KeyError Node
  | .null => .ok .null
  | .bool b => .ok (.scalar (.bool b))
  | .number n => .ok (.scalar (.ofNumber n))
  | .string s => .ok (.string s)
  | .sequence items => (ofYamlItems items).map .list
  | .mapping entries => (ofYamlEntries [] entries).map .mapping
  | .tagged _ value => ofYaml value

def ofYamlItems : List Yaml.Value → Except KeyError (List Node)
  | [] => .ok []
  | v :: rest => do
    let node ← ofYaml v
    let nodes ← ofYamlItems rest
    return node :: nodes

def ofYamlEntries (before : List (String × Node)) :
    List (Yaml.Value × Yaml.Value) → Except KeyError (List (String × Node))
  | [] => .ok before
  | (k, v) :: rest => do
    let key ← k.keyText
    if Keyed.contains key before then .error (.duplicate key)
    else
      let node ← ofYaml v
      ofYamlEntries (Keyed.insert key node before) rest

end

mutual

def toYaml : Node → Yaml.Value
  | .mapping entries => .mapping (toYamlEntries entries)
  | .list items => .sequence (toYamlItems items)
  | .scalar .null => .null
  | .scalar (.bool b) => .bool b
  | .scalar (.int i) => .number (.ofInt64 i)
  | .scalar (.uint n) => .number (.natural n)
  | .scalar (.float x) => .number (.float x)
  | .scalar (.string s) => .string s

def toYamlItems : List Node → List Yaml.Value
  | [] => []
  | v :: rest => toYaml v :: toYamlItems rest

def toYamlEntries : List (String × Node) → List (Yaml.Value × Yaml.Value)
  | [] => []
  | (k, v) :: rest => (.string k, toYaml v) :: toYamlEntries rest

end

end Node
end ManifestDiff
