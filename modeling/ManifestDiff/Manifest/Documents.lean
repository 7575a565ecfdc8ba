import ManifestDiff.Manifest.Object
import ManifestDiff.Yaml.Decode
/-!
# Manifests

The documents and the objects of a manifest. Null documents are passed over but count in the
numbering of the documents. Every document is decoded before the first object is looked at.
-/
namespace ManifestDiff.Manifest

/-- A document that is not null, with its position in the stream, counted from one. -/
structure Document where
  index : Nat
  node : Node
deriving Inhabited

/-- The documents of a stream whose first one has this position. -/
def documentsFrom (index : Nat) :
    List (Except Yaml.SyntaxError Yaml.Value) → Except ManifestError (List Document)
  | [] => .ok []
  | .error cause :: _ => .error (@ManifestError.badDocument cause index)
  | .ok value :: rest =>
    if value.isNull then documentsFrom (index + 1) rest
    else
      match Node.ofYaml value with
      | .error cause => .error (.badKey index cause)
      | .ok node => do return ⟨index, node⟩ :: (← documentsFrom (index + 1) rest)

def documents (stream : List (Except Yaml.SyntaxError Yaml.Value)) :
    Except ManifestError (List Document) :=
  documentsFrom 1 stream

def objectsOf (documents : List Document) : Except ManifestError (List Object) :=
  documents.mapM fun document => Object.ofNode document.node document.index

def objects (stream : List (Except Yaml.SyntaxError Yaml.Value)) :
    Except ManifestError (List Object) := do
  objectsOf (← documents stream)

def parseDocuments (text : String) : Except ManifestError (List Document) :=
  documents (Yaml.readAll text)

def parseObjects (text : String) : Except ManifestError (List Object) :=
  objects (Yaml.readAll text)

end ManifestDiff.Manifest
