import ManifestDiff.Node.Basic
import ManifestDiff.Text
import ManifestDiff.Yaml.Quoting
/-!
# Block text

A node as a YAML document in block style. The entries of a nested mapping are indented by two, the
items of a list under a key are not indented, and an empty collection is written in flow style. A
key of several lines or of more than 128 bytes is marked by a question mark.
-/
namespace ManifestDiff

namespace Yaml

/-- Exponents start at 16 and below -5, a whole number ends in `.0`, and positive exponents have no
sign. -/
def layout : Layout := ⟨.even, some (-5), some 15, true, false⟩

def spaces (n : Nat) : String := String.ofList (List.replicate n ' ')

def isSimpleKey (key : String) : Bool :=
  !key.toList.any Quoting.isBreak && key.utf8ByteSize ≤ 128

end Yaml

/-- The scalar as it is written where further lines are indented this far. -/
def Scalar.yamlText (indent : Nat) : Scalar → String
  | .null => "null"
  | .bool b => if b then "true" else "false"
  | .int i => toString i.toInt
  | .uint n => toString n.toNat
  | .float .nan => ".nan"
  | .float (.infinite negative) => if negative then "-.inf" else ".inf"
  | .float (.finite negative index) => Yaml.layout.finite negative index
  | .string s => String.ofList (Yaml.Quoting.write indent s)

namespace Node

def keyIntroducer (column : Nat) (key : String) : String :=
  let text := String.ofList (Yaml.Quoting.write (column + 2) key)
  if Yaml.isSimpleKey key then text ++ ":"
  else "? " ++ text ++ "\n" ++ Yaml.spaces column ++ ":"

mutual

/-- The text of a node that starts in this column, with the line end after it. -/
def textFrom (column : Nat) : Node → String
  | .mapping [] => "\x7b\x7d\n"
  | .mapping entries => textEntries column entries
  | .list [] => "[]\n"
  | .list items => textItems column items
  | .scalar value => value.yamlText column ++ "\n"

/-- The text of a node after the mark of its key, in a mapping in this column. -/
def textAfterKey (column : Nat) : Node → String
  | .mapping [] => " \x7b\x7d\n"
  | .mapping entries => "\n" ++ Yaml.spaces (column + 2) ++ textEntries (column + 2) entries
  | .list [] => " []\n"
  | .list items => "\n" ++ Yaml.spaces column ++ textItems column items
  | .scalar value => " " ++ value.yamlText (column + 2) ++ "\n"

def textEntries (column : Nat) : List (String × Node) → String
  | [] => ""
  | (k, v) :: rest =>
    keyIntroducer column k ++
      (if Yaml.isSimpleKey k then textAfterKey column v else " " ++ textFrom (column + 2) v) ++
      (if rest.isEmpty then "" else Yaml.spaces column ++ textEntries column rest)

def textItems (column : Nat) : List Node → String
  | [] => ""
  | v :: rest =>
    "- " ++ textFrom (column + 2) v ++
      (if rest.isEmpty then "" else Yaml.spaces column ++ textItems column rest)

end

/-- The node as a document; further lines of a scalar document are indented too. -/
def blockText : Node → String
  | .scalar value => value.yamlText 2 ++ "\n"
  | node => textFrom 0 node

/-- The node on one line: its block text without outer blanks, cut after the first line. -/
def summary (node : Node) : String :=
  let text := trim node.blockText.toList
  let first := text.takeWhile (· != '\n')
  if first.length < text.length then String.ofList (trimEnd first) ++ " ..."
  else String.ofList text

end Node
end ManifestDiff
