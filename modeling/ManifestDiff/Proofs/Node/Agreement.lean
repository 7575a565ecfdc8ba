import ManifestDiff.Proofs.Node.RoundTrip
/-!
# Decoders and writers agree

A JSON value is decoded as the YAML value that is the same tree. A decoded node is written as a YAML
value that decodes to the same node, and so is it as a JSON value as far as all its floats are
finite. What makes this work is that a decoded node has each integer in one form only, and each
mapping sorted with no key twice.
-/
namespace ManifestDiff

namespace Json.Value

inductive DistinctMembers : Value → Prop
  | null : DistinctMembers .null
  | bool (b : Bool) : DistinctMembers (.bool b)
  | number (n : Number) : DistinctMembers (.number n)
  | string (s : String) : DistinctMembers (.string s)
  | array {items : List Value} (h : ∀ item ∈ items, DistinctMembers item) :
    DistinctMembers (.array items)
  | object {members : List (String × Value)} (hkeys : (members.map Prod.fst).Nodup)
    (h : ∀ member ∈ members, DistinctMembers member.2) : DistinctMembers (.object members)

mutual

def toYaml : Value → Yaml.Value
  | .null => .null
  | .bool b => .bool b
  | .number n => .number n
  | .string s => .string s
  | .array items => .sequence (toYamlItems items)
  | .object members => .mapping (toYamlMembers members)

def toYamlItems : List Value → List Yaml.Value
  | [] => []
  | item :: rest => toYaml item :: toYamlItems rest

def toYamlMembers : List (String × Value) → List (Yaml.Value × Yaml.Value)
  | [] => []
  | (k, v) :: rest => (.string k, toYaml v) :: toYamlMembers rest

end

theorem toYaml_array (items : List Value) : (array items).toYaml = .sequence (items.map toYaml) := by
  rw [toYaml]
  congr 1
  induction items with
  | nil => rfl
  | cons item rest ih => rw [toYamlItems, ih, List.map_cons]

theorem toYaml_object (members : List (String × Value)) :
    (object members).toYaml =
      .mapping (members.map fun member => (.string member.1, member.2.toYaml)) := by
  rw [toYaml]
  congr 1
  induction members with
  | nil => rfl
  | cons member rest ih => rw [toYamlMembers, ih, List.map_cons]

end Json.Value

namespace Node

theorem toYaml_list (items : List Node) : (list items).toYaml = .sequence (items.map toYaml) := by
  rw [toYaml]
  congr 1
  induction items with
  | nil => rfl
  | cons item rest ih => rw [toYamlItems, ih, List.map_cons]

theorem toYaml_mapping (entries : List (String × Node)) :
    (mapping entries).toYaml =
      .mapping (entries.map fun entry => (.string entry.1, entry.2.toYaml)) := by
  rw [toYaml]
  congr 1
  induction entries with
  | nil => rfl
  | cons entry rest ih => rw [toYamlEntries, ih, List.map_cons]

section

variable {α : Type} {write : α → Yaml.Value} {node : α → Node}

theorem ofYaml_sequence_map {items : List α}
    (h : ∀ item ∈ items, ofYaml (write item) = .ok (node item)) :
    ofYaml (.sequence (items.map write)) = .ok (.list (items.map node)) := by
  rw [ofYaml_sequence_eq_ok_iff]
  refine ⟨items.map node, ?_, rfl⟩
  rw [List.forall₂_map_left_iff, List.forall₂_map_right_iff, List.forall₂_same]
  exact h

theorem ofYaml_mapping_map {entries : List (String × α)} (hkeys : (entries.map Prod.fst).Nodup)
    (h : ∀ entry ∈ entries, ofYaml (write entry.2) = .ok (node entry.2)) :
    ofYaml (.mapping (entries.map fun entry => (.string entry.1, write entry.2))) =
      .ok (.mapping (Keyed.ofList (entries.map fun entry => (entry.1, node entry.2)))) := by
  rw [ofYaml_mapping_eq_ok_iff]
  refine ⟨entries.map fun entry => (entry.1, node entry.2), ?_, ?_, rfl⟩
  · rw [List.forall₂_map_left_iff, List.forall₂_map_right_iff, List.forall₂_same]
    intro entry hm
    exact ⟨rfl, h entry hm⟩
  · rw [List.map_map]
    exact hkeys

end

theorem ofYaml_of_distinctMembers {value : Json.Value} (h : value.DistinctMembers) :
    ofYaml value.toYaml = .ok (ofJson value) := by
  induction h with
  | array _ ih =>
    rw [Json.Value.toYaml_array, ofJson_array]
    exact ofYaml_sequence_map ih
  | object hkeys _ ih =>
    rw [Json.Value.toYaml_object, ofJson_object]
    exact ofYaml_mapping_map hkeys ih
  | _ => rfl

theorem ofYaml_toYaml {node : Node} (h : node.Normal) : ofYaml node.toYaml = .ok node := by
  induction h with
  | @mapping entries hsorted _ ih =>
    rw [toYaml_mapping, @ofYaml_mapping_map Node toYaml id entries hsorted.nodup ih]
    -- the fields stand in the order of their keys, so collecting them again changes nothing
    change Except.ok (mapping (Keyed.ofList (entries.map id))) = _
    rw [List.map_id, hsorted.ofList_eq]
  | @list items _ ih =>
    rw [toYaml_list, @ofYaml_sequence_map Node toYaml id items ih, List.map_id]
  | @scalar value h =>
    cases value with
    | int i => exact congrArg (Except.ok ∘ scalar) (Scalar.ofNumber_ofInt64 i)
    | uint n => exact congrArg (Except.ok ∘ scalar) (Scalar.ofNumber_natural h)
    | _ => rfl

/-- The two decoders give the same node for the same tree, and both give a node back that was
written: from YAML always, and from JSON if all its floats are finite. -/
theorem decoders_agree :
    (∀ value : Json.Value, value.DistinctMembers → ofYaml value.toYaml = .ok (ofJson value)) ∧
      ∀ node : Node, node.Decoded →
        ofYaml node.toYaml = .ok node ∧ (node.AllFinite → ofJson node.toJson = node) := by
  refine ⟨fun value h => ofYaml_of_distinctMembers h, ?_⟩
  intro node hnode
  have hnormal : node.Normal := hnode.normal
  exact ⟨ofYaml_toYaml hnormal, ofJson_toJson hnormal⟩

private def bounds : Json.Value :=
  .object [("80", .array [.number (.natural 9223372036854775807),
    .number (.natural 9223372036854775808), .number (.negative (-9223372036854775808)),
    .number (.float .zero)]), ("", .object [])]

private def boundsNode : Node :=
  .mapping [("", .mapping []), ("80", .list [.scalar (.int 9223372036854775807),
    .scalar (.uint 9223372036854775808), .scalar (.int (-9223372036854775808)),
    .scalar (.float .zero)])]

private theorem distinctMembers_bounds : bounds.DistinctMembers := by
  refine .object (by decide) (List.forall_mem_cons.mpr ⟨.array ?_, ?_⟩)
  · simp only [List.forall_mem_cons]
    exact ⟨.number _, .number _, .number _, .number _, nofun⟩
  · exact List.forall_mem_singleton.mpr (.object List.nodup_nil nofun)

private theorem allFinite_boundsNode : boundsNode.AllFinite := by
  have hzero (x : Binary64) (h : Scalar.float .zero = .float x) : x.isFinite = true := by
    cases h
    rfl
  refine .mapping (List.forall_mem_cons.mpr ⟨.mapping nofun, ?_⟩)
  refine List.forall_mem_singleton.mpr (.list ?_)
  simp only [List.forall_mem_cons]
  exact ⟨.scalar nofun, .scalar nofun, .scalar nofun, .scalar hzero, nofun⟩

/-- A key that looks like a number, an empty mapping, the integers where a signed word ends on
either side, and a float that is a whole number. -/
theorem decoders_agree_bounds :
    bounds.DistinctMembers ∧ boundsNode.Decoded ∧ boundsNode.AllFinite ∧
      ofYaml bounds.toYaml = .ok (ofJson bounds) ∧ ofJson bounds = boundsNode ∧
      ofYaml boundsNode.toYaml = .ok boundsNode ∧ ofJson boundsNode.toJson = boundsNode := by
  have hnode : ofJson bounds = boundsNode := by rfl
  have hdecoded : boundsNode.Decoded := hnode ▸ .json bounds
  obtain ⟨hyaml, hjson⟩ := decoders_agree.2 boundsNode hdecoded
  exact ⟨distinctMembers_bounds, hdecoded, allFinite_boundsNode,
    decoders_agree.1 bounds distinctMembers_bounds, hnode, hyaml, hjson allFinite_boundsNode⟩

end Node
end ManifestDiff
