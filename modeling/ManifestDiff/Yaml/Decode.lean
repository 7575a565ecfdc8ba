import ManifestDiff.Yaml.Plain
import ManifestDiff.Yaml.Token.Cursor
import ManifestDiff.Yaml.Token.Lexer
import ManifestDiff.Yaml.Tree
import ManifestDiff.Yaml.Value
/-!
# Values of documents

The value of a document tree: aliases are replaced by the nodes they stand for, scalars are read,
and keys may not repeat. Collections nest at most 128 deep, across aliases too, and aliases may be
followed a hundred times for each node of the document. A text without any document is one null
document, and a document that is not YAML ends the list.
-/
namespace ManifestDiff.Yaml

def maxDepth : Nat := 128

def maxAliasesPerNode : Nat := 100

abbrev Decode := StateT Nat (Except SyntaxError)

def plainValue (text : String) : Except SyntaxError Value :=
  match Plain.read text.toList with
  | .null => .ok .null
  | .bool b => .ok (.bool b)
  | .number n => .ok (.number n)
  | .tooWide => .error .wideInteger
  | .text => .ok (.string text)

def untaggedScalar (plain : Bool) (text : String) : Except SyntaxError Value :=
  if plain then plainValue text else .ok (.string text)

/-- A scalar whose tag is not a local one: the types of the core schema have to fit the text, and
every other tag makes a string of it. -/
def typedScalar (tag : Tag) (text : String) : Except SyntaxError Value :=
  let cs := text.toList
  if tag == .ofString "tag:yaml.org,2002:bool" then
    match Plain.bool? cs with
    | some b => .ok (.bool b)
    | none => .error .tagMismatch
  else if tag == .ofString "tag:yaml.org,2002:int" then
    match Plain.ofInteger? cs with
    | some (.number n) => .ok (.number n)
    | _ => .error .tagMismatch
  else if tag == .ofString "tag:yaml.org,2002:float" then
    match Plain.float? cs with
    | some x => .ok (.number (.float x))
    | none => .error .tagMismatch
  else if tag == .ofString "tag:yaml.org,2002:null" then
    if Plain.isNull cs then .ok .null else .error .tagMismatch
  else .ok (.string text)

/-- Puts a local tag around a value; a tag without a local name is dropped from a collection. -/
def withTag (tag : Option Tag) (value : Value) : Value :=
  match tag.bind Tag.localName? with
  | some name => .tagged name value
  | none => value

def scalarValue (tag : Option Tag) (plain : Bool) (text : String) : Except SyntaxError Value :=
  match tag with
  | none => untaggedScalar plain text
  | some tag =>
    match tag.localName? with
    | some name => (untaggedScalar plain text).map (.tagged name)
    | none => if tag.isLocal then untaggedScalar plain text else typedScalar tag text

namespace Document

def follow (document : Document) (tree : Tree) : Decode Tree := do
  match tree with
  | .alias slot =>
    let followed ← get
    if document.size * maxAliasesPerNode ≤ followed then throw .tooManyAliases
    set (followed + 1)
    match document.anchored.lookup slot with
    | some target => return target
    | none => throw .unknownAlias
  | tree => return tree

/-- Adds entries to those before them; a key that is there already is refused. -/
def addEntries (decode : Tree → Decode Value) (before : List (Value × Value)) :
    List (Tree × Tree) → Decode (List (Value × Value))
  | [] => return before.reverse
  | (k, v) :: rest => do
    let key ← decode k
    if before.any fun (l, _) => l.equal key then throw .duplicateKey
    let value ← decode v
    addEntries decode ((key, value) :: before) rest

/-- The value of a tree in which collections nest at most this deep. -/
def decode (document : Document) : (depth : Nat) → Tree → Decode Value
  | depth, tree => do
    match ← document.follow tree, depth with
    | .scalar tag plain text, _ => scalarValue tag plain text
    | .sequence tag items, depth + 1 =>
      let values ← items.mapM (decode document depth)
      return withTag tag (.sequence values)
    | .mapping tag entries, depth + 1 =>
      let values ← addEntries (decode document depth) [] entries
      return withTag tag (.mapping values)
    | _, _ => throw .tooDeep

def value (document : Document) : Except SyntaxError Value :=
  ((document.decode maxDepth document.root).run 0).map Prod.fst

end Document

def readAll (text : String) : List (Except SyntaxError Value) :=
  let (tokens, error) := tokens text
  match documentsOf tokens error with
  | [] => [.ok .null]
  | documents => documents.map fun document => document.bind Document.value

def readOne? (text : String) : Option Value :=
  match readAll text with
  | [.ok value] => some value
  | _ => none

end ManifestDiff.Yaml
