import ManifestDiff.Node.Yaml
import ManifestDiff.Proofs.Keyed
import Mathlib.Data.List.Forall2
/-!
# Well-formed nodes

Induction over nodes hands a hypothesis to every entry and every item. A node is well-formed when
each mapping in it is sorted by its keys; the values inside a well-formed node are well-formed. Both
decoders build well-formed nodes only, and hold every integer in a signed word that fits one. What a
list or a mapping of YAML is decoded to is known from what its parts are decoded to.
-/
namespace ManifestDiff

open Keyed

namespace Node

/-- Induction over a tree, with the hypothesis for every value of a mapping and every item. -/
@[elab_as_elim, induction_eliminator]
theorem induct {P : Node → Prop}
    (mapping : ∀ entries : List (String × Node), (∀ entry ∈ entries, P entry.2) →
      P (.mapping entries))
    (list : ∀ items : List Node, (∀ item ∈ items, P item) → P (.list items))
    (scalar : ∀ value : Scalar, P (.scalar value)) (node : Node) : P node :=
  @Node.rec P (fun entries => ∀ entry ∈ entries, P entry.2) (fun items => ∀ item ∈ items, P item)
    (fun entry => P entry.2) mapping list scalar (by simp)
    (fun _ _ head tail => List.forall_mem_cons.mpr ⟨head, tail⟩) (by simp)
    (fun _ _ head tail => List.forall_mem_cons.mpr ⟨head, tail⟩) (fun _ _ value => value) node

private theorem wellFormedEntries_iff (entries : List (String × Node)) :
    WellFormedEntries entries ↔ ∀ entry ∈ entries, entry.2.WellFormed := by
  induction entries with
  | nil => simp [WellFormedEntries]
  | cons entry rest ih => simp [WellFormedEntries, ih]

private theorem wellFormedItems_iff (items : List Node) :
    WellFormedItems items ↔ ∀ item ∈ items, item.WellFormed := by
  induction items with
  | nil => simp [WellFormedItems]
  | cons item rest ih => simp [WellFormedItems, ih]

theorem wellFormed_mapping_iff {entries : List (String × Node)} :
    (mapping entries).WellFormed ↔ Sorted entries ∧ ∀ entry ∈ entries, entry.2.WellFormed := by
  rw [WellFormed, wellFormedEntries_iff]

theorem wellFormed_list_iff {items : List Node} :
    (list items).WellFormed ↔ ∀ item ∈ items, item.WellFormed := by
  rw [WellFormed, wellFormedItems_iff]

theorem WellFormed.of_find? {entries : List (String × Node)} (h : (mapping entries).WellFormed)
    {k : String} {v : Node} (hv : find? k entries = some v) : v.WellFormed :=
  ((wellFormed_mapping_iff).mp h).2 (k, v) (mem_of_find? hv)

end Node

/-- An integer that a signed word holds is not held by an unsigned one. -/
def Scalar.Normal : Scalar → Prop
  | .uint n => Int64.maxValue.toInt < n.toNat
  | _ => True

theorem Scalar.ofNumber_normal (n : Number) : (ofNumber n).Normal := by
  cases n with
  | natural n =>
    rw [ofNumber]
    split
    next => trivial
    next h => exact Int.not_le.mp h
  | negative i => trivial
  | float x => trivial

namespace Node

/-- A well-formed node with normal scalars, as the decoders build it. -/
inductive Normal : Node → Prop
  | mapping {entries : List (String × Node)} (hsorted : Sorted entries)
    (h : ∀ entry ∈ entries, Normal entry.2) : Normal (.mapping entries)
  | list {items : List Node} (h : ∀ item ∈ items, Normal item) : Normal (.list items)
  | scalar {value : Scalar} (h : value.Normal) : Normal (.scalar value)

theorem Normal.wellFormed {node : Node} (h : node.Normal) : node.WellFormed := by
  induction h with
  | mapping hsorted _ ih => exact (wellFormed_mapping_iff).mpr ⟨hsorted, ih⟩
  | list _ ih => exact (wellFormed_list_iff).mpr ih
  | scalar _ => trivial

theorem normal_scalar_iff {value : Scalar} : (scalar value).Normal ↔ value.Normal := by
  constructor
  · intro h
    cases h with | scalar h => exact h
  · exact .scalar

mutual

theorem ofJson_normal : ∀ value : Json.Value, (ofJson value).Normal
  | .null | .bool _ | .string _ => by
    rw [ofJson]
    exact .scalar trivial
  | .number n => by
    rw [ofJson]
    exact .scalar (Scalar.ofNumber_normal n)
  | .array items => by
    rw [ofJson]
    exact .list (ofJsonItems_normal items)
  | .object members => by
    rw [ofJson]
    refine .mapping (sorted_ofList _) ?_
    intro entry hm
    exact ofJsonMembers_normal members entry (mem_of_mem_ofList hm)

private theorem ofJsonItems_normal :
    ∀ items : List Json.Value, ∀ item ∈ ofJsonItems items, item.Normal
  | [] => by simp [ofJsonItems]
  | value :: rest => by
    rw [ofJsonItems, List.forall_mem_cons]
    exact ⟨ofJson_normal value, ofJsonItems_normal rest⟩

private theorem ofJsonMembers_normal :
    ∀ members : List (String × Json.Value), ∀ entry ∈ ofJsonMembers members, entry.2.Normal
  | [] => by simp [ofJsonMembers]
  | (_, value) :: rest => by
    rw [ofJsonMembers, List.forall_mem_cons]
    exact ⟨ofJson_normal value, ofJsonMembers_normal rest⟩

end

theorem ofJson_wellFormed (value : Json.Value) : (ofJson value).WellFormed :=
  (ofJson_normal value).wellFormed

end Node

theorem bind_eq_ok_iff {ε α β : Type} {x : Except ε α} {f : α → Except ε β} {b : β} :
    (x >>= f) = .ok b ↔ ∃ a, x = .ok a ∧ f a = .ok b := by
  cases x <;> simp [bind, Except.bind]

theorem bind_eq_error_iff {ε α β : Type} {x : Except ε α} {f : α → Except ε β} {fault : ε} :
    (x >>= f) = .error fault ↔ x = .error fault ∨ ∃ a, x = .ok a ∧ f a = .error fault := by
  cases x <;> simp [bind, Except.bind]

theorem map_eq_ok_iff {ε α β : Type} {x : Except ε α} {f : α → β} {b : β} :
    x.map f = .ok b ↔ ∃ a, x = .ok a ∧ f a = b := by
  cases x <;> simp [Except.map]

private theorem exists_mem_of_forall₂ {α β : Type} {R : α → β → Prop} {xs : List α} {ys : List β}
    (h : List.Forall₂ R xs ys) {y : β} (hm : y ∈ ys) : ∃ x ∈ xs, R x y := by
  induction h with
  | nil => cases hm
  | @cons x y' xs ys hxy _ ih =>
    rcases List.mem_cons.mp hm with rfl | hm
    · exact ⟨x, List.mem_cons_self, hxy⟩
    · obtain ⟨x', hx', hR⟩ := ih hm
      exact ⟨x', List.mem_cons_of_mem x hx', hR⟩

@[elab_as_elim, induction_eliminator]
theorem Yaml.Value.induct {P : Yaml.Value → Prop} (null : P .null) (bool : ∀ b, P (.bool b))
    (number : ∀ n, P (.number n)) (string : ∀ s, P (.string s))
    (sequence : ∀ items : List Yaml.Value, (∀ item ∈ items, P item) → P (.sequence items))
    (mapping : ∀ entries : List (Yaml.Value × Yaml.Value), (∀ entry ∈ entries, P entry.2) →
      P (.mapping entries))
    (tagged : ∀ tag value, P value → P (.tagged tag value)) (value : Yaml.Value) : P value :=
  @Yaml.Value.rec P (fun items => ∀ item ∈ items, P item)
    (fun entries => ∀ entry ∈ entries, P entry.2) (fun entry => P entry.2) null bool number string
    sequence mapping tagged (by simp)
    (fun _ _ head tail => List.forall_mem_cons.mpr ⟨head, tail⟩) (by simp)
    (fun _ _ head tail => List.forall_mem_cons.mpr ⟨head, tail⟩) (fun _ _ _ value => value) value

namespace Node

private theorem ofYamlItems_eq_ok_iff {items : List Yaml.Value} {nodes : List Node} :
    ofYamlItems items = .ok nodes ↔
      List.Forall₂ (fun item node => ofYaml item = .ok node) items nodes := by
  induction items generalizing nodes with
  | nil => rw [ofYamlItems, List.forall₂_nil_left_iff, Except.ok.injEq, eq_comm]
  | cons item rest ih =>
    simp only [ofYamlItems, bind_eq_ok_iff, ih, pure, Except.pure, Except.ok.injEq,
      List.forall₂_cons_left_iff]
    constructor
    · rintro ⟨node, hnode, rest, hrest, rfl⟩
      exact ⟨node, rest, hnode, hrest, rfl⟩
    · rintro ⟨node, rest, hnode, hrest, rfl⟩
      exact ⟨node, hnode, rest, hrest, rfl⟩

theorem ofYaml_sequence_eq_ok_iff {items : List Yaml.Value} {node : Node} :
    ofYaml (.sequence items) = .ok node ↔
      ∃ nodes, List.Forall₂ (fun item node => ofYaml item = .ok node) items nodes ∧
        list nodes = node := by
  simp only [ofYaml, map_eq_ok_iff, ofYamlItems_eq_ok_iff]

private theorem ofYamlEntries_cons_eq_ok_iff {key value : Yaml.Value}
    {rest : List (Yaml.Value × Yaml.Value)} {done after : List (String × Node)}
    (h : (done.map Prod.fst).Nodup) :
    ofYamlEntries (ofList done) ((key, value) :: rest) = .ok after ↔
      ∃ name node, (key.keyText = .ok name ∧ ofYaml value = .ok node) ∧
        name ∉ done.map Prod.fst ∧
        ofYamlEntries (ofList (done ++ [(name, node)])) rest = .ok after := by
  have hmem (name : String) : contains name (ofList done) = true ↔ name ∈ done.map Prod.fst := by
    rw [contains, find?_isSome_iff, ((perm_ofList h).map Prod.fst).mem_iff]
  simp only [ofYamlEntries, bind_eq_ok_iff, ofList_concat]
  constructor
  · rintro ⟨name, hname, hrest⟩
    by_cases hc : contains name (ofList done) = true
    · rw [if_pos hc] at hrest
      cases hrest
    · rw [if_neg hc, bind_eq_ok_iff] at hrest
      obtain ⟨node, hnode, hrest⟩ := hrest
      exact ⟨name, node, ⟨hname, hnode⟩, mt (hmem name).mpr hc, hrest⟩
  · rintro ⟨name, node, ⟨hname, hnode⟩, hnew, hrest⟩
    refine ⟨name, hname, ?_⟩
    rw [if_neg (mt (hmem name).mp hnew), bind_eq_ok_iff]
    exact ⟨node, hnode, hrest⟩

private theorem ofYamlEntries_eq_ok_iff {entries : List (Yaml.Value × Yaml.Value)}
    {done after : List (String × Node)} (h : (done.map Prod.fst).Nodup) :
    ofYamlEntries (ofList done) entries = .ok after ↔
      ∃ named : List (String × Node),
        List.Forall₂ (fun entry field => entry.1.keyText = .ok field.1 ∧
          ofYaml entry.2 = .ok field.2) entries named ∧
        ((done ++ named).map Prod.fst).Nodup ∧ ofList (done ++ named) = after := by
  -- the fields decoded so far have different names, and this is kept by each further one
  induction entries generalizing done after with
  | nil => simp [ofYamlEntries, h]
  | cons entry rest ih =>
    obtain ⟨key, value⟩ := entry
    rw [ofYamlEntries_cons_eq_ok_iff h]
    constructor
    · rintro ⟨name, node, hfield, hnew, hrest⟩
      have hone : ((done ++ [(name, node)]).map Prod.fst).Nodup := by
        rw [List.map_append, List.nodup_append']
        exact ⟨h, List.nodup_singleton _, List.disjoint_singleton.mpr hnew⟩
      obtain ⟨named, hnamed, hnodup, rfl⟩ := (ih hone).mp hrest
      rw [List.append_assoc] at hnodup ⊢
      exact ⟨(name, node) :: named, .cons hfield hnamed, hnodup, rfl⟩
    · rintro ⟨named, hnamed, hnodup, rfl⟩
      obtain ⟨⟨name, node⟩, later, hfield, hlater, rfl⟩ := List.forall₂_cons_left_iff.mp hnamed
      rw [List.append_cons done (name, node) later] at hnodup ⊢
      have hone : ((done ++ [(name, node)]).map Prod.fst).Nodup := by
        rw [List.map_append] at hnodup
        exact hnodup.of_append_left
      have hnew : name ∉ done.map Prod.fst := by
        rw [List.map_append, List.nodup_append'] at hone
        exact List.disjoint_singleton.mp hone.2.2
      exact ⟨name, node, hfield, hnew, (ih hone).mpr ⟨later, hlater, hnodup, rfl⟩⟩

theorem ofYaml_mapping_eq_ok_iff {entries : List (Yaml.Value × Yaml.Value)} {node : Node} :
    ofYaml (.mapping entries) = .ok node ↔
      ∃ named : List (String × Node),
        List.Forall₂ (fun entry field => entry.1.keyText = .ok field.1 ∧
          ofYaml entry.2 = .ok field.2) entries named ∧
        (named.map Prod.fst).Nodup ∧ mapping (ofList named) = node := by
  have hnil : (([] : List (String × Node)).map Prod.fst).Nodup := List.nodup_nil
  rw [ofYaml, map_eq_ok_iff]
  constructor
  · rintro ⟨after, hafter, rfl⟩
    obtain ⟨named, hnamed, hnodup, rfl⟩ := (ofYamlEntries_eq_ok_iff hnil).mp hafter
    exact ⟨named, hnamed, hnodup, rfl⟩
  · rintro ⟨named, hnamed, hnodup, rfl⟩
    refine ⟨ofList named, ?_, rfl⟩
    exact (ofYamlEntries_eq_ok_iff hnil).mpr ⟨named, hnamed, hnodup, rfl⟩

theorem ofYaml_normal {value : Yaml.Value} {node : Node} (h : ofYaml value = .ok node) :
    node.Normal := by
  induction value generalizing node with
  | number n =>
    cases h
    exact .scalar (Scalar.ofNumber_normal n)
  | sequence items ih =>
    obtain ⟨nodes, hnodes, rfl⟩ := (ofYaml_sequence_eq_ok_iff).mp h
    refine .list ?_
    intro node hm
    obtain ⟨item, hitem, hnode⟩ := exists_mem_of_forall₂ hnodes hm
    exact ih item hitem hnode
  | mapping entries ih =>
    obtain ⟨named, hnamed, -, rfl⟩ := (ofYaml_mapping_eq_ok_iff).mp h
    refine .mapping (sorted_ofList named) ?_
    intro field hm
    obtain ⟨entry, hentry, -, hvalue⟩ := exists_mem_of_forall₂ hnamed (mem_of_mem_ofList hm)
    exact ih entry hentry hvalue
  | tagged tag value ih =>
    rw [ofYaml] at h
    exact ih h
  | _ =>
    cases h
    exact .scalar trivial

end Node

abbrev WellFormedNode := { node : Node // node.WellFormed }

end ManifestDiff
