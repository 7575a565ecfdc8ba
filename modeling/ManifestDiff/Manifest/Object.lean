import ManifestDiff.Node.Yaml
import ManifestDiff.Yaml.Token.Cursor
/-!
# Objects

A top-level object of a manifest, with the sections that are compared. Its key does not depend on
its position. Keys are ordered by kind, then by namespace with no namespace first, then by name.
`Object.ofNode` accepts a node exactly when the fields every object has are there, and blames the
first one that is not; an error names as much of the object as was read.
-/
namespace ManifestDiff

structure ObjectKey where
  kind : String
  namespaceName : Option String
  name : String
deriving DecidableEq, Repr, Inhabited

namespace ObjectKey

/-- The namespace `default` and the empty one count as no namespace. -/
def normalNamespace : Option String → Option String
  | none => none
  | some ns => if ns == "" || ns == "default" then none else some ns

def of (kind : String) (ns : Option String) (name : String) : ObjectKey :=
  ⟨kind, normalNamespace ns, name⟩

instance : Ord ObjectKey where
  compare a b :=
    (compare a.kind b.kind).then
      ((compare a.namespaceName b.namespaceName).then (compare a.name b.name))

def display (key : ObjectKey) : String :=
  match key.namespaceName with
  | some ns => key.kind ++ "/" ++ ns ++ "/" ++ key.name
  | none => key.kind ++ "/" ++ key.name

def title (key : ObjectKey) : String :=
  match key.namespaceName with
  | some ns => key.kind ++ " " ++ ns ++ "/" ++ key.name
  | none => key.kind ++ " " ++ key.name

end ObjectKey

inductive Shape where
  | mapping
  | list
  | null
  | boolean
  | integer
  | float
  | emptyString
  | string
deriving DecidableEq, Repr

def Shape.phrase : Shape → String
  | .mapping => "a mapping"
  | .list => "a list"
  | .null => "null"
  | .boolean => "a boolean"
  | .integer => "an integer"
  | .float => "a float"
  | .emptyString => "an empty string"
  | .string => "a string"

def Scalar.shape : Scalar → Shape
  | .null => .null
  | .bool _ => .boolean
  | .int _ => .integer
  | .uint _ => .integer
  | .float _ => .float
  | .string s => if s == "" then .emptyString else .string

def Node.shape : Node → Shape
  | .mapping _ => .mapping
  | .list _ => .list
  | .scalar value => value.shape

inductive Field where
  | apiVersion
  | kind
  | metadata
  | name
  | namespaceName
deriving DecidableEq, Repr

namespace Field

def path : Field → String
  | .apiVersion => "apiVersion"
  | .kind => "kind"
  | .metadata => "metadata"
  | .name => "metadata.name"
  | .namespaceName => "metadata.namespace"

def requirement : Field → String
  | .metadata => "a mapping"
  | .namespaceName => "a string"
  | _ => "a non-empty string"

end Field

/-- An object of a manifest: the position of its document, counted from one, with the kind and the
name once they are known. -/
structure ObjectRef where
  index : Nat
  kind : Option String
  name : Option String
deriving DecidableEq, Repr

namespace ObjectRef

def ofIndex (index : Nat) : ObjectRef := ⟨index, none, none⟩

def withKind (ref : ObjectRef) (kind : String) : ObjectRef := { ref with kind := some kind }

def withName (ref : ObjectRef) (name : String) : ObjectRef := { ref with name := some name }

def display (ref : ObjectRef) : String :=
  "object " ++ toString ref.index ++
    match ref.kind, ref.name with
    | some kind, some name => " (" ++ kind ++ "/" ++ name ++ ")"
    | some kind, none => " (" ++ kind ++ ")"
    | none, _ => ""

end ObjectRef

inductive ManifestError where
  /-- The text of this document is not YAML; the cause is kept beside the message. -/
  | badDocument {cause : Yaml.SyntaxError} (index : Nat)
  | badKey (index : Nat) (cause : KeyError)
  | notAMapping (index : Nat) (actual : Shape)
  | missingField (object : ObjectRef) (field : Field)
  | invalidField (object : ObjectRef) (field : Field) (actual : Shape)
deriving DecidableEq, Repr

namespace ManifestError

/-- The message; what is wrong with the text of a document is not part of it. -/
def message : ManifestError → String
  | .badDocument index => "failed to parse object " ++ toString index
  | .badKey index cause => "failed to parse object " ++ toString index ++ ": " ++ cause.message
  | .notAMapping index actual =>
    "object " ++ toString index ++ ": expected a mapping at the document root, got " ++
      actual.phrase
  | .missingField object field =>
    object.display ++ ": missing required field '" ++ field.path ++ "'"
  | .invalidField object field actual =>
    object.display ++ ": '" ++ field.path ++ "' must be " ++ field.requirement ++ ", got " ++
      actual.phrase

/-- The messages of the error and of the error behind it, the outer one first. -/
def chain : ManifestError → List String
  | .badKey index cause => [message (.badKey index cause), cause.message]
  | error => [error.message]

end ManifestError

structure Object where
  apiVersion : String
  kind : String
  metadata : List (String × Node)
  data : Option Node
  spec : Option Node
deriving Inhabited

namespace Object

def name (object : Object) : String :=
  ((Keyed.find? "name" object.metadata).bind Node.string?).getD ""

def namespaceName? (object : Object) : Option String :=
  (Keyed.find? "namespace" object.metadata).bind Node.string?

def key (object : Object) : ObjectKey :=
  .of object.kind object.namespaceName? object.name

/-- A field that has to be a non-empty string. A null counts as a missing field. -/
def requireString (object : ObjectRef) (field : Field) :
    Option Node → Except ManifestError String
  | none => .error (.missingField object field)
  | some (.scalar .null) => .error (.missingField object field)
  | some node =>
    match node.string? with
    | some s => if s == "" then .error (.invalidField object field node.shape) else .ok s
    | none => .error (.invalidField object field node.shape)

/-- The metadata have to be a mapping. A null counts as a missing field. -/
def requireMetadata (object : ObjectRef) :
    Option Node → Except ManifestError (List (String × Node))
  | none => .error (.missingField object .metadata)
  | some (.scalar .null) => .error (.missingField object .metadata)
  | some (.mapping entries) => .ok entries
  | some node => .error (.invalidField object .metadata node.shape)

/-- The namespace may be absent but is a string when it is there. -/
def checkNamespace (object : ObjectRef) : Option Node → Except ManifestError Unit
  | none => .ok ()
  | some node =>
    match node.string? with
    | some _ => .ok ()
    | none => .error (.invalidField object .namespaceName node.shape)

/-- A section that is null counts as absent. -/
def presentSection (node? : Option Node) : Option Node :=
  node?.filter fun node => !node.isNull

/-- Reads the object in the document at this position, counted from one. -/
def ofNode (node : Node) (index : Nat) : Except ManifestError Object :=
  match node with
  | .mapping root => do
    let ref := ObjectRef.ofIndex index
    let apiVersion ← requireString ref .apiVersion (Keyed.find? "apiVersion" root)
    let kind ← requireString ref .kind (Keyed.find? "kind" root)
    let ref := ref.withKind kind
    let metadata ← requireMetadata ref (Keyed.find? "metadata" root)
    let name ← requireString ref .name (Keyed.find? "name" metadata)
    checkNamespace (ref.withName name) (Keyed.find? "namespace" metadata)
    return {
      apiVersion, kind, metadata
      data := presentSection (Keyed.find? "data" root)
      spec := presentSection (Keyed.find? "spec" root) }
  | node => .error (.notAMapping index node.shape)

end Object
end ManifestDiff
