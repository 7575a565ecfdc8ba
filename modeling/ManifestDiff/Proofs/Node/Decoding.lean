import ManifestDiff.Proofs.Node.Equality
import ManifestDiff.Proofs.Node.KeyErrors
import ManifestDiff.Proofs.Node.RoundTrip
/-!
# Decoding loses nothing

The node of a value is its mirror image: without the tags, with the items of each list in their
order, and with one field for each entry of a mapping. Main statement: a value is decoded to its
mirror image exactly when it has no key errors, and otherwise the first of them is reported.
-/
namespace ManifestDiff

def Number.integer? : Number → Option Int
  | .natural n => some n.toNat
  | .negative i => some i.toInt
  | .float _ => none

namespace Scalar

def integer? : Scalar → Option Int
  | .int i => some i.toInt
  | .uint n => some n.toNat
  | _ => none

theorem integer?_ofNumber (n : Number) : (ofNumber n).integer? = n.integer? := by
  cases n with
  | natural n =>
    rw [ofNumber]
    split
    next h =>
      have hmax : (n.toNat : Int) ≤ 2 ^ 63 - 1 := Int64.toInt_maxValue ▸ h
      rw [integer?, ← Int64.ofInt_eq_ofNat, Int64.toInt_ofInt_of_le (by omega) (by omega)]
      rfl
    next => rfl
  | negative i => rfl
  | float x => rfl

theorem eq_of_integer? {s t : Scalar} (hs : s.Normal) (ht : t.Normal) {i : Int}
    (hi : s.integer? = some i) (hj : t.integer? = some i) : s = t := by
  cases s <;> cases t <;> simp only [integer?, Option.some.injEq, reduceCtorEq] at hi hj
  case int.int a b => rw [Int64.toInt_inj.mp (hi.trans hj.symm)]
  case uint.uint m n =>
    have hmn : m = n := UInt64.toNat_inj.mp (by omega)
    rw [hmn]
  case int.uint a n =>
    have hmax : a.toInt ≤ Int64.maxValue.toInt := a.toInt_le
    have hn : Int64.maxValue.toInt < n.toNat := ht
    omega
  case uint.int n a =>
    have hmax : a.toInt ≤ Int64.maxValue.toInt := a.toInt_le
    have hn : Int64.maxValue.toInt < n.toNat := hs
    omega

theorem equal_iff_integer? {s t : Scalar} (hs : s.Normal) (ht : t.Normal) {i j : Int}
    (hi : s.integer? = some i) (hj : t.integer? = some j) : s.equal t = true ↔ i = j := by
  constructor
  · intro h
    have heq : s = t := by
      cases s <;> cases t <;> simp only [equal, integer?, Bool.false_eq_true, beq_iff_eq,
        reduceCtorEq] at h hi
      all_goals rw [h]
    rw [heq, hj] at hi
    exact (Option.some.inj hi).symm
  · rintro rfl
    rw [eq_of_integer? hs ht hi hj]
    exact equal_refl t

end Scalar

namespace Yaml.Value

mutual

def stripped : Value → Value
  | .sequence items => .sequence (strippedItems items)
  | .mapping entries => .mapping (strippedEntries entries)
  | .tagged _ value => stripped value
  | value => value

def strippedItems : List Value → List Value
  | [] => []
  | item :: rest => stripped item :: strippedItems rest

def strippedEntries : List (Value × Value) → List (Value × Value)
  | [] => []
  | (key, value) :: rest => (stripped key, stripped value) :: strippedEntries rest

end

theorem keyText_stripped (key : Value) : key.stripped.keyText = key.keyText := by
  induction key with
  | tagged tag value ih =>
    rw [stripped, keyText]
    exact ih
  | _ => rfl

end Yaml.Value

namespace Node

open Keyed Yaml.Value

private theorem ofYamlItems_stripped {items : List Yaml.Value}
    (h : ∀ item ∈ items, ofYaml item.stripped = ofYaml item) :
    ofYamlItems (strippedItems items) = ofYamlItems items := by
  induction items with
  | nil => rfl
  | cons item rest ih =>
    obtain ⟨hitem, hrest⟩ := List.forall_mem_cons.mp h
    rw [strippedItems, ofYamlItems, hitem, ih hrest, ofYamlItems]

private theorem ofYamlEntries_stripped {entries : List (Yaml.Value × Yaml.Value)}
    (h : ∀ entry ∈ entries, ofYaml entry.2.stripped = ofYaml entry.2)
    (before : List (String × Node)) :
    ofYamlEntries before (strippedEntries entries) = ofYamlEntries before entries := by
  induction entries generalizing before with
  | nil => rfl
  | cons entry rest ih =>
    obtain ⟨key, value⟩ := entry
    obtain ⟨hvalue, hrest⟩ := List.forall_mem_cons.mp h
    rw [strippedEntries, ofYamlEntries, keyText_stripped, hvalue, ofYamlEntries]
    simp only [ih hrest]

theorem ofYaml_stripped (value : Yaml.Value) : ofYaml value.stripped = ofYaml value := by
  induction value with
  | sequence items ih => rw [stripped, ofYaml, ofYamlItems_stripped ih, ofYaml]
  | mapping entries ih => rw [stripped, ofYaml, ofYamlEntries_stripped ih, ofYaml]
  | tagged tag value ih => rw [stripped, ih, ofYaml]
  | _ => rfl

/-- The node has the shape and the leaves of the value, and each key names a field. -/
inductive Mirrors : Yaml.Value → Node → Prop
  | null : Mirrors .null .null
  | bool (b : Bool) : Mirrors (.bool b) (.scalar (.bool b))
  | integer {n : Number} {s : Scalar} {i : Int} (hn : n.integer? = some i)
    (hs : s.integer? = some i) (hnormal : s.Normal) : Mirrors (.number n) (.scalar s)
  | float (x : Binary64) : Mirrors (.number (.float x)) (.scalar (.float x))
  | string (s : String) : Mirrors (.string s) (.string s)
  | sequence {items : List Yaml.Value} {nodes : List Node} (h : List.Forall₂ Mirrors items nodes) :
    Mirrors (.sequence items) (.list nodes)
  | mapping {entries : List (Yaml.Value × Yaml.Value)} {fields named : List (String × Node)}
    (hnames : List.Forall₂ (fun entry field => entry.1.fieldName? = some field.1) entries named)
    (hvalues : List.Forall₂ Mirrors (entries.map Prod.snd) (named.map Prod.snd))
    (hperm : fields.Perm named) (hsorted : Sorted fields) :
    Mirrors (.mapping entries) (.mapping fields)
  | tagged {tag : String} {value : Yaml.Value} {node : Node} (h : Mirrors value node) :
    Mirrors (.tagged tag value) node

private theorem forall₂_and {α β : Type} {R S : α → β → Prop} {xs : List α} {ys : List β} :
    List.Forall₂ (fun x y => R x y ∧ S x y) xs ys ↔
      List.Forall₂ R xs ys ∧ List.Forall₂ S xs ys := by
  simp only [List.forall₂_iff_zip, imp_and, forall_and]
  tauto

private theorem forall₂_congr_mem {α β : Type} {R S : α → β → Prop} {xs : List α} {ys : List β}
    (h : ∀ x ∈ xs, ∀ y, R x y ↔ S x y) : List.Forall₂ R xs ys ↔ List.Forall₂ S xs ys := by
  simp only [List.forall₂_iff_zip]
  refine and_congr_right fun _ => ?_
  constructor
  · intro hall x y hm
    exact (h x (List.of_mem_zip hm).1 y).mp (hall hm)
  · intro hall x y hm
    exact (h x (List.of_mem_zip hm).1 y).mpr (hall hm)

theorem ofYaml_number_eq_ok_iff {n : Number} {node : Node} :
    ofYaml (.number n) = .ok node ↔ Mirrors (.number n) node := by
  rw [ofYaml, Except.ok.injEq]
  constructor
  · rintro rfl
    cases hn : n.integer? with
    | some i =>
      exact .integer hn ((Scalar.integer?_ofNumber n).trans hn) (Scalar.ofNumber_normal n)
    | none =>
      cases n with
      | float x => exact .float x
      | _ => cases hn
  · intro h
    cases h with
    | @integer _ s i hn hs hnormal =>
      -- the scalar is not given by the number but by its value, which only one normal scalar has
      rw [← Scalar.integer?_ofNumber] at hn
      rw [Scalar.eq_of_integer? (Scalar.ofNumber_normal n) hnormal hn hs]
    | float x => rfl

/-- A value is decoded to its mirror image only. -/
theorem ofYaml_eq_ok_iff {value : Yaml.Value} {node : Node} :
    ofYaml value = .ok node ↔ Mirrors value node := by
  induction value generalizing node with
  | number n => exact ofYaml_number_eq_ok_iff
  | sequence items ih =>
    rw [ofYaml_sequence_eq_ok_iff]
    constructor
    · rintro ⟨nodes, hnodes, rfl⟩
      exact .sequence ((forall₂_congr_mem fun item hm node => ih item hm).mp hnodes)
    · intro h
      cases h with | @sequence _ nodes hnodes =>
      exact ⟨nodes, (forall₂_congr_mem fun item hm node => ih item hm).mpr hnodes, rfl⟩
  | mapping entries ih =>
    have hfields (named : List (String × Node)) :
        List.Forall₂ (fun entry field => entry.1.keyText = .ok field.1 ∧
            ofYaml entry.2 = .ok field.2) entries named ↔
          List.Forall₂ (fun entry field => entry.1.fieldName? = some field.1) entries named ∧
            List.Forall₂ Mirrors (entries.map Prod.snd) (named.map Prod.snd) := by
      rw [List.forall₂_map_left_iff, List.forall₂_map_right_iff, ← forall₂_and]
      apply forall₂_congr_mem
      intro entry hm field
      exact and_congr keyText_eq_ok_iff (ih entry hm)
    rw [ofYaml_mapping_eq_ok_iff]
    constructor
    · rintro ⟨named, hnamed, hnodup, rfl⟩
      obtain ⟨hnames, hvalues⟩ := (hfields named).mp hnamed
      exact .mapping hnames hvalues (perm_ofList hnodup) (sorted_ofList named)
    · intro h
      cases h with | @mapping _ fields named hnames hvalues hperm hsorted =>
      have hnodup : (named.map Prod.fst).Nodup := (hperm.map Prod.fst).nodup hsorted.nodup
      -- the order of the entries is lost in the fields, so they are compared as sorted lists
      have hsame : ofList named = fields := by
        apply (sorted_ofList named).ext_mem hsorted
        intro field
        exact ((perm_ofList hnodup).trans hperm.symm).mem_iff
      exact ⟨named, (hfields named).mpr ⟨hnames, hvalues⟩, hnodup, congrArg Node.mapping hsame⟩
  | tagged tag value ih =>
    rw [ofYaml, ih]
    constructor
    · exact .tagged
    · intro h
      cases h with | tagged h => exact h
  | _ =>
    constructor
    · intro h
      cases h
      constructor
    · intro h
      cases h
      rfl

/-- Decoding loses nothing of a value and refuses only keys that name no field of their own. -/
theorem ofYaml_faithful (value : Yaml.Value) :
    ((∃ node, ofYaml value = .ok node) ↔
      ∀ entries, (Yaml.Value.mapping entries).Within value → DistinctKeys entries) ∧
    (∀ node, ofYaml value = .ok node ↔ Mirrors value node) ∧
    ofYaml value.stripped = ofYaml value ∧
    (∀ cause, ofYaml value = .error cause ↔ value.keyErrors.head? = some cause) ∧
    (∀ n, (scalar (.uint n)).Decoded → Int64.maxValue.toInt < n.toNat) ∧
    ∀ s t i j, (scalar s).Decoded → (scalar t).Decoded → s.integer? = some i →
      t.integer? = some j → ((scalar s).equal (scalar t) = true ↔ i = j) := by
  refine ⟨?accepted, ?mirrored, ?tags, ?refused, ?unsigned, ?integers⟩
  case accepted => rw [exists_ofYaml_eq_ok_iff, keyErrors_eq_nil_iff]
  case mirrored => exact fun _ => ofYaml_eq_ok_iff
  case tags => exact ofYaml_stripped value
  case refused => exact fun _ => ofYaml_eq_error_iff
  case unsigned => exact fun _ h => (normal_scalar_iff).mp h.normal
  case integers =>
    intro s t i j hs ht hi hj
    exact Scalar.equal_iff_integer? ((normal_scalar_iff).mp hs.normal)
      ((normal_scalar_iff).mp ht.normal) hi hj

private def limits : Yaml.Value :=
  .mapping [(.tagged "port" (.number (.natural 1)), .sequence [.number (.natural 8080),
    .tagged "wide" (.number (.natural 9223372036854775808))])]

private def collisions : Yaml.Value :=
  .mapping [(.string "a", .mapping [(.number (.natural 1), .null), (.string "1", .null)]),
    (.tagged "again" (.string "a"), .mapping [(.sequence [], .null)])]

/-- A key and an integer lose their tags; of two keys that name nothing new and a list as a key, the
key inside the first value is reported. -/
theorem ofYaml_faithful_limits :
    Mirrors limits (.mapping [("1", .list [.scalar (.int 8080),
      .scalar (.uint 9223372036854775808)])]) ∧
    collisions.keyErrors = [.duplicate "1", .duplicate "a", .unsupportedSequence] ∧
    ofYaml collisions = .error (.duplicate "1") ∧
    (scalar (.int 8080)).Decoded ∧ (scalar (.uint 9223372036854775808)).Decoded ∧
    Int64.maxValue.toInt < (9223372036854775808 : UInt64).toNat ∧
    ((scalar (.int 8080)).equal (scalar (.uint 9223372036854775808)) = true ↔
      (8080 : Int) = 9223372036854775808) := by
  have hlimits : ofYaml limits = .ok (.mapping [("1", .list [.scalar (.int 8080),
      .scalar (.uint 9223372036854775808)])]) := by rfl
  have herrors : collisions.keyErrors =
      [.duplicate "1", .duplicate "a", .unsupportedSequence] := by decide
  have hitems : (list [.scalar (.int 8080), .scalar (.uint 9223372036854775808)]).Decoded :=
    .entry (.yaml hlimits) List.mem_cons_self
  have hport : (scalar (.int 8080)).Decoded := .item hitems (by simp)
  have hwide : (scalar (.uint 9223372036854775808)).Decoded := .item hitems (by simp)
  obtain ⟨-, hmirrors, -, -, hunsigned, hintegers⟩ := ofYaml_faithful limits
  obtain ⟨-, -, -, hrefused, -⟩ := ofYaml_faithful collisions
  refine ⟨(hmirrors _).mp hlimits, herrors, (hrefused _).mpr ?_, hport, hwide, hunsigned _ hwide,
    hintegers _ _ _ _ hport hwide rfl rfl⟩
  rw [herrors]
  rfl

end Node
end ManifestDiff
