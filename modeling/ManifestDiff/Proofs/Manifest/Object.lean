import ManifestDiff.Manifest.Object
import ManifestDiff.Proofs.Node.WellFormed
/-!
# Objects that were read

A node is read as an object exactly when the fields every object has are there. The object holds
parts of the node only, so the sections of an object read from a well-formed node are well-formed.
-/
namespace ManifestDiff

open Keyed

namespace Object

structure WellFormed (object : Object) : Prop where
  metadata : (Node.mapping object.metadata).WellFormed
  data : ∀ node, object.data = some node → node.WellFormed
  spec : ∀ node, object.spec = some node → node.WellFormed

theorem WellFormed.present_metadata {object : Object} (h : object.WellFormed) :
    ∀ node, some (Node.mapping object.metadata) = some node → node.WellFormed := by
  rintro _ ⟨⟩
  exact h.metadata

end Object

abbrev WellFormedObject := { object : Object // object.WellFormed }

namespace Object

def IsDecoded (object : Object) : Prop :=
  ∃ (node : WellFormedNode) (index : Nat), ofNode node index = .ok object

theorem requireString_eq_ok_iff {ref : ObjectRef} {field : Field} {node? : Option Node}
    {s : String} :
    requireString ref field node? = .ok s ↔ node? = some (.string s) ∧ s ≠ "" := by
  match node? with
  | none => simp [requireString]
  | some (.mapping entries) => simp [requireString, Node.string?, Node.string]
  | some (.list items) => simp [requireString, Node.string?, Node.string]
  | some (.scalar value) =>
    cases value with
    | string text =>
      by_cases hempty : text = ""
      · simp_all [requireString, Node.string?, Scalar.string?, Node.string]
      · simp only [requireString, Node.string?, Scalar.string?, Node.string, beq_iff_eq, hempty,
          if_false, Except.ok.injEq, Option.some.injEq, Node.scalar.injEq, Scalar.string.injEq]
        constructor
        · rintro rfl
          exact ⟨rfl, hempty⟩
        · exact fun h => h.1
    | _ => simp [requireString, Node.string?, Scalar.string?, Node.string]

theorem requireMetadata_eq_ok_iff {ref : ObjectRef} {node? : Option Node}
    {entries : List (String × Node)} :
    requireMetadata ref node? = .ok entries ↔ node? = some (.mapping entries) := by
  match node? with
  | none => simp [requireMetadata]
  | some (.mapping _) => simp [requireMetadata]
  | some (.list _) => simp [requireMetadata]
  | some (.scalar value) => cases value <;> simp [requireMetadata]

theorem checkNamespace_eq_ok_iff {ref : ObjectRef} {node? : Option Node} {done : Unit} :
    checkNamespace ref node? = .ok done ↔
      ∀ node, node? = some node → (node.string?).isSome = true := by
  cases node? with
  | none => simp [checkNamespace]
  | some node => cases h : node.string? <;> simp [checkNamespace, h]

theorem ofNode_eq_ok_iff {node : Node} {index : Nat} {object : Object} :
    ofNode node index = .ok object ↔ ∃ root, node = .mapping root ∧
      (find? "apiVersion" root = some (.string object.apiVersion) ∧ object.apiVersion ≠ "") ∧
      (find? "kind" root = some (.string object.kind) ∧ object.kind ≠ "") ∧
      find? "metadata" root = some (.mapping object.metadata) ∧
      (∃ name, find? "name" object.metadata = some (.string name) ∧ name ≠ "") ∧
      (∀ ns, find? "namespace" object.metadata = some ns → (ns.string?).isSome = true) ∧
      object.data = presentSection (find? "data" root) ∧
      object.spec = presentSection (find? "spec" root) := by
  cases node with
  | mapping root =>
    simp only [ofNode, bind_eq_ok_iff, requireString_eq_ok_iff, requireMetadata_eq_ok_iff,
      checkNamespace_eq_ok_iff, pure, Except.pure, Except.ok.injEq, Node.mapping.injEq,
      exists_eq_left']
    constructor
    · rintro ⟨apiVersion, hapi, kind, hkind, metadata, hmetadata, name, hname, _, hns, rfl⟩
      exact ⟨hapi, hkind, hmetadata, ⟨name, hname⟩, hns, rfl, rfl⟩
    · rintro ⟨hapi, hkind, hmetadata, ⟨name, hname⟩, hns, hdata, hspec⟩
      refine ⟨_, hapi, _, hkind, _, hmetadata, name, hname, (), hns, ?_⟩
      rw [← hdata, ← hspec]
  | list items => simp [ofNode]
  | scalar value => simp [ofNode]

theorem presentSection_eq_some {node? : Option Node} {node : Node}
    (h : presentSection node? = some node) : node? = some node :=
  (Option.filter_eq_some_iff.mp h).1

theorem IsDecoded.wellFormed {object : Object} (h : object.IsDecoded) : object.WellFormed := by
  obtain ⟨⟨node, hnode⟩, index, hread⟩ := h
  obtain ⟨root, rfl, _, _, hmetadata, _, _, hdata, hspec⟩ := (ofNode_eq_ok_iff).mp hread
  refine ⟨hnode.of_find? hmetadata, ?_, ?_⟩
  · intro data h
    exact hnode.of_find? (presentSection_eq_some (hdata ▸ h))
  · intro spec h
    exact hnode.of_find? (presentSection_eq_some (hspec ▸ h))

theorem wellFormed_getD {section? : Option Node}
    (h : ∀ node, section? = some node → node.WellFormed) : (section?.getD .empty).WellFormed := by
  cases section? with
  | none => exact (Node.wellFormed_mapping_iff).mpr ⟨.nil, List.forall_mem_nil _⟩
  | some node => exact h node rfl

theorem kind_eq_of_key_eq {a b : Object} (h : a.key = b.key) : a.kind = b.kind :=
  congrArg ObjectKey.kind h

def configMap (name level : String) : Object where
  apiVersion := "v1"
  kind := "ConfigMap"
  metadata := [("name", .string name)]
  data := some (.mapping [("level", .string level)])
  spec := none

theorem IsDecoded.configMap {name : String} (h : name ≠ "") (level : String) :
    (configMap name level).IsDecoded := by
  let json : Json.Value := .object [("apiVersion", .string "v1"), ("kind", .string "ConfigMap"),
    ("metadata", .object [("name", .string name)]), ("data", .object [("level", .string level)])]
  refine ⟨⟨.ofJson json, Node.ofJson_wellFormed json⟩, 1, (ofNode_eq_ok_iff).mpr ?_⟩
  have hapi : "v1" ≠ "" := by decide
  have hkind : "ConfigMap" ≠ "" := by decide
  exact ⟨_, rfl, ⟨rfl, hapi⟩, ⟨rfl, hkind⟩, rfl, ⟨name, rfl, h⟩, by rintro _ ⟨⟩, rfl, rfl⟩

end Object
end ManifestDiff
