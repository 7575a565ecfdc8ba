import ManifestDiff.Proofs.Json.Unambiguous
import ManifestDiff.Proofs.Node.WellFormed
/-!
# From nodes to JSON text and back

A decoded node whose floats are all finite is written as a JSON value that decodes to the same node.
The text of that value is unambiguous, so the text of such a node tells the node.
-/
namespace ManifestDiff

namespace Scalar

private theorem toNat_ofInt64 {i : Int64} (h : ¬i < 0) :
    ((UInt64.ofNat i.toInt.toNat).toNat : Int) = i.toInt := by
  have hzero : 0 ≤ i.toInt := Int.not_lt.mp fun hneg => h (Int64.lt_iff_toInt_lt.mpr hneg)
  have hmax : i.toInt ≤ 2 ^ 63 - 1 := Int64.toInt_maxValue ▸ i.toInt_le
  have hsize : i.toInt.toNat < UInt64.size := by
    rw [UInt64.size]
    omega
  rw [UInt64.toNat_ofNat_of_lt' hsize, Int.toNat_of_nonneg hzero]

theorem ofNumber_ofInt64 (i : Int64) : ofNumber (.ofInt64 i) = .int i := by
  rw [Number.ofInt64]
  split
  next => rfl
  next h =>
    rw [ofNumber, ← Int64.ofInt_eq_ofNat, toNat_ofInt64 h, if_pos i.toInt_le, Int64.ofInt_toInt]

theorem ofNumber_natural {n : UInt64} (h : (uint n).Normal) : ofNumber (.natural n) = .uint n :=
  if_neg (Int.not_le.mpr h)

theorem exact_ofInt64 (i : Int64) : (Json.Value.number (.ofInt64 i)).Exact := by
  rw [Number.ofInt64]
  split
  next h => exact .negative h
  next => exact .natural _

theorem exact_toJson (value : Scalar) : value.toJson.Exact := by
  match value with
  | .null => exact .null
  | .bool b => exact .bool b
  | .int i => exact exact_ofInt64 i
  | .uint n => exact .natural n
  | .float .nan | .float (.infinite _) => exact .null
  | .float (.finite negative index) => exact .finite negative index
  | .string s => exact .string s

end Scalar

namespace Node

inductive FloatFree : Node → Prop
  | mapping {entries : List (String × Node)} (h : ∀ entry ∈ entries, FloatFree entry.2) :
    FloatFree (.mapping entries)
  | list {items : List Node} (h : ∀ item ∈ items, FloatFree item) : FloatFree (.list items)
  | scalar {value : Scalar} (h : ∀ x, value ≠ .float x) : FloatFree (.scalar value)

inductive AllFinite : Node → Prop
  | mapping {entries : List (String × Node)} (h : ∀ entry ∈ entries, AllFinite entry.2) :
    AllFinite (.mapping entries)
  | list {items : List Node} (h : ∀ item ∈ items, AllFinite item) : AllFinite (.list items)
  | scalar {value : Scalar} (h : ∀ x, value = .float x → x.isFinite = true) :
    AllFinite (.scalar value)

theorem FloatFree.allFinite {node : Node} (h : node.FloatFree) : node.AllFinite := by
  induction h with
  | mapping _ ih => exact .mapping ih
  | list _ ih => exact .list ih
  | scalar h => exact .scalar fun x hx => absurd hx (h x)

theorem toJson_list (items : List Node) :
    (list items).toJson = .array (items.map toJson) := by
  rw [toJson]
  congr 1
  induction items with
  | nil => rfl
  | cons item rest ih => rw [toJsonItems, ih, List.map_cons]

theorem toJson_mapping (entries : List (String × Node)) :
    (mapping entries).toJson = .object (entries.map fun entry => (entry.1, entry.2.toJson)) := by
  rw [toJson]
  congr 1
  induction entries with
  | nil => rfl
  | cons entry rest ih => rw [toJsonMembers, ih, List.map_cons]

theorem ofJson_array (items : List Json.Value) :
    ofJson (.array items) = .list (items.map ofJson) := by
  rw [ofJson]
  congr 1
  induction items with
  | nil => rfl
  | cons item rest ih => rw [ofJsonItems, ih, List.map_cons]

theorem ofJson_object (members : List (String × Json.Value)) :
    ofJson (.object members) =
      .mapping (Keyed.ofList (members.map fun member => (member.1, ofJson member.2))) := by
  rw [ofJson]
  congr 2
  induction members with
  | nil => rfl
  | cons member rest ih => rw [ofJsonMembers, ih, List.map_cons]

theorem exact_toJson (node : Node) : node.toJson.Exact := by
  induction node with
  | mapping entries ih =>
    rw [toJson_mapping]
    exact .object (List.forall_mem_map.mpr ih)
  | list items ih =>
    rw [toJson_list]
    exact .array (List.forall_mem_map.mpr ih)
  | scalar value => exact value.exact_toJson

theorem ofJson_toJson {node : Node} (h : node.Normal) (hfinite : node.AllFinite) :
    ofJson node.toJson = node := by
  induction h with
  | @mapping entries hsorted _ ih =>
    cases hfinite with | mapping hentries =>
    have hback : ∀ entry ∈ entries, (entry.1, ofJson entry.2.toJson) = id entry :=
      fun entry hm => Prod.ext rfl (ih entry hm (hentries entry hm))
    rw [toJson_mapping, ofJson_object, List.map_map]
    change mapping (Keyed.ofList (entries.map fun entry => (entry.1, ofJson entry.2.toJson))) = _
    rw [List.map_congr_left hback, List.map_id, hsorted.ofList_eq]
  | @list items _ ih =>
    cases hfinite with | list hitems =>
    have hback : ∀ item ∈ items, (ofJson ∘ toJson) item = id item :=
      fun item hm => ih item hm (hitems item hm)
    rw [toJson_list, ofJson_array, List.map_map, List.map_congr_left hback, List.map_id]
  | @scalar value h =>
    cases hfinite with | scalar hvalue =>
    cases value with
    | int i => exact congrArg scalar (Scalar.ofNumber_ofInt64 i)
    | uint n => exact congrArg scalar (Scalar.ofNumber_natural h)
    | float x => simp [toJson, Scalar.toJson, hvalue x rfl, ofJson, Scalar.ofNumber]
    | _ => rfl

/-- A decoded node, or a value somewhere inside one. -/
inductive Decoded : Node → Prop
  | json (value : Json.Value) : Decoded (ofJson value)
  | yaml {value : Yaml.Value} {node : Node} (h : ofYaml value = .ok node) : Decoded node
  | entry {entries : List (String × Node)} {entry : String × Node} (h : Decoded (.mapping entries))
    (hm : entry ∈ entries) : Decoded entry.2
  | item {items : List Node} {item : Node} (h : Decoded (.list items)) (hm : item ∈ items) :
    Decoded item

theorem Decoded.normal {node : Node} (h : node.Decoded) : node.Normal := by
  induction h with
  | json value => exact ofJson_normal value
  | yaml h => exact ofYaml_normal h
  | entry _ hm ih =>
    cases ih with | mapping _ hentries =>
    exact hentries _ hm
  | item _ hm ih =>
    cases ih with | list hitems =>
    exact hitems _ hm

theorem eq_of_toJson {v w : Node} (hv : v.Decoded) (hw : w.Decoded) (hfv : v.AllFinite)
    (hfw : w.AllFinite) (h : v.toJson = w.toJson) : v = w := by
  rw [← ofJson_toJson hv.normal hfv, h, ofJson_toJson hw.normal hfw]

theorem toJson_eq_of_text {v w : Node} (h : v.toJson.text = w.toJson.text) :
    v.toJson = w.toJson :=
  v.exact_toJson.eq_of_text w.exact_toJson h

end Node
end ManifestDiff
