import ManifestDiff.Proofs.Diff.Equivalence
/-!
# Canonical forms

The canonical form of a node forgets what equivalence does not look at: the order of the elements of
a list that can be matched by identity, and the way an equal scalar is written. Two nodes are
equivalent exactly when their canonical forms are the same.
-/
namespace ManifestDiff

/-- A node up to equivalence. The entries of a mapping and the elements of an identity set are
finite maps, sorted by key. -/
inductive Canonical where
  | mapping (entries : List (String × Canonical))
  | list (items : List Canonical)
  /-- The elements of a list that is matched by identity, each under its identity. -/
  | identitySet (elements : List (String × Canonical))
  /-- Scalars are told apart by `Scalar.equal` only. -/
  | scalar (value : Quotient Scalar.setoid)

namespace IdentityRule

mutual

def canonical (rule : IdentityRule) : Node → Canonical
  | .mapping entries => .mapping (canonicalEntries rule entries)
  | .list items =>
    if rule.isMatchable items then .identitySet (canonicalElements rule items)
    else .list (canonicalItems rule items)
  | .scalar value => .scalar (Quotient.mk _ value)

def canonicalEntries (rule : IdentityRule) : List (String × Node) → List (String × Canonical)
  | [] => []
  | (k, v) :: rest => (k, canonical rule v) :: canonicalEntries rule rest

def canonicalItems (rule : IdentityRule) : List Node → List Canonical
  | [] => []
  | v :: rest => canonical rule v :: canonicalItems rule rest

def canonicalElements (rule : IdentityRule) : List Node → List (String × Canonical)
  | [] => []
  | v :: rest =>
    match rule.identityOf v with
    | some id => Keyed.insert id (canonical rule v) (canonicalElements rule rest)
    | none => canonicalElements rule rest

end

variable {rule : IdentityRule}

theorem canonical_mapping (entries : List (String × Node)) :
    rule.canonical (.mapping entries) =
      .mapping (entries.map fun entry => (entry.1, rule.canonical entry.2)) := by
  rw [canonical]
  congr 1
  induction entries with
  | nil => rfl
  | cons entry rest ih => rw [canonicalEntries, ih, List.map_cons]

theorem canonical_matchable {items : List Node} {map : List (String × Node)}
    (hlist : rule.isIdentityList items = true) (h : rule.index items = some map) :
    rule.canonical (.list items) =
      .identitySet (map.map fun entry => (entry.1, rule.canonical entry.2)) := by
  have hm : rule.isMatchable items = true := by simp [isMatchable, hlist, h]
  rw [canonical, if_pos hm]
  congr 1
  clear hlist hm
  induction items generalizing map with
  | nil =>
    cases h
    rfl
  | cons item rest ih =>
    obtain ⟨id, tail, hid, htail, _, rfl⟩ := (index_cons_eq_some_iff).mp h
    rw [canonicalElements, hid, Keyed.map_insert]
    exact congrArg _ (ih htail)

theorem canonical_list {items : List Node} (h : rule.isMatchable items = false) :
    rule.canonical (.list items) = .list (items.map rule.canonical) := by
  rw [canonical, if_neg (by simp [h])]
  congr 1
  clear h
  induction items with
  | nil => rfl
  | cons item rest ih => rw [canonicalItems, ih, List.map_cons]

end IdentityRule

namespace Canonical

def get? (k : String) : Canonical → Option Canonical
  | .mapping entries => Keyed.find? k entries
  | _ => none

def string? : Canonical → Option String
  | .scalar value => value.lift Scalar.string? fun _ _ => Scalar.string?_eq_of_equal
  | _ => none

end Canonical

namespace IdentityRule

variable {rule : IdentityRule}

private theorem canonical_get? (k : String) (v : Node) :
    (rule.canonical v).get? k = (v.get? k).map rule.canonical := by
  cases v with
  | mapping entries =>
    rw [canonical_mapping, Canonical.get?, Keyed.find?_map]
    rfl
  | list items =>
    rw [canonical]
    cases rule.isMatchable items <;> rfl
  | scalar value => rfl

private theorem canonical_string? (v : Node) : (rule.canonical v).string? = v.string? := by
  cases v with
  | mapping entries => rfl
  | list items =>
    rw [canonical]
    cases rule.isMatchable items <;> rfl
  | scalar value => rfl

private theorem identityOf_eq (v : Node) :
    rule.identityOf v = ((rule.canonical v).get? rule.nameKey).bind Canonical.string? := by
  rw [canonical_get?, identityOf, Option.bind_map]
  congr 1
  funext w
  exact (canonical_string? w).symm

private theorem isIdentityList_congr {xs ys : List Node}
    (h : xs.map rule.canonical = ys.map rule.canonical) :
    rule.isIdentityList xs = rule.isIdentityList ys := by
  cases xs with
  | nil =>
    have hnil : ys = [] := List.map_eq_nil_iff.mp h.symm
    rw [hnil]
  | cons v xs =>
    cases ys with
    | nil => simp at h
    | cons w ys =>
      have hv : rule.canonical v = rule.canonical w := (List.cons.inj h).1
      have hkey (k : String) : (v.get? k).isSome = (w.get? k).isSome := by
        have hget := congrArg (fun c => (Canonical.get? k c).isSome) hv
        simpa only [canonical_get?, Option.isSome_map] using hget
      rw [isIdentityList_cons, isIdentityList_cons, hkey, hkey]

private theorem map_identityOf_congr {xs ys : List Node}
    (h : xs.map rule.canonical = ys.map rule.canonical) :
    xs.map rule.identityOf = ys.map rule.identityOf := by
  have hg : rule.identityOf =
      (fun c : Canonical => (c.get? rule.nameKey).bind Canonical.string?) ∘ rule.canonical :=
    funext identityOf_eq
  rw [hg, ← List.map_map, h, List.map_map]

private theorem index_isSome_congr {xs ys : List Node}
    (h : xs.map rule.canonical = ys.map rule.canonical) :
    (rule.index xs).isSome = (rule.index ys).isSome := by
  have hids := map_identityOf_congr h
  have hflat (items : List Node) :
      rule.identities items = (items.map rule.identityOf).filterMap id := by
    rw [List.filterMap_map]
    rfl
  have hall (items : List Node) : (∀ item ∈ items, (rule.identityOf item).isSome = true) ↔
      ∀ own ∈ items.map rule.identityOf, own.isSome = true := by
    rw [List.forall_mem_map]
  apply Bool.eq_iff_iff.mpr
  rw [index_isSome_iff, index_isSome_iff, hall, hall, hflat, hflat, hids]

theorem isMatchable_congr {xs ys : List Node}
    (h : xs.map rule.canonical = ys.map rule.canonical) :
    rule.isMatchable xs = rule.isMatchable ys := by
  rw [isMatchable, isMatchable, isIdentityList_congr h, index_isSome_congr h]

private theorem rel_iff_map_canonical {x y : Option Node}
    (h : ∀ v w, x = some v → y = some w →
      (rule.equivalent v w = true ↔ rule.canonical v = rule.canonical w)) :
    Option.Rel (fun v w => rule.equivalent v w = true) x y ↔
      x.map rule.canonical = y.map rule.canonical := by
  cases x <;> cases y <;> simp_all

private theorem equivalent_matched_canonical {xs ys : List Node}
    (hm : rule.matchesByIdentity xs ys = true)
    (ih : ∀ v ∈ xs, ∀ w ∈ ys,
      (rule.equivalent v w = true ↔ rule.canonical v = rule.canonical w)) :
    rule.equivalent (.list xs) (.list ys) = true ↔
      rule.canonical (.list xs) = rule.canonical (.list ys) := by
  obtain ⟨hx, hy⟩ := (matchesByIdentity_iff).mp hm
  obtain ⟨hlx, hix⟩ := Bool.and_eq_true_iff.mp hx
  obtain ⟨hly, hiy⟩ := Bool.and_eq_true_iff.mp hy
  obtain ⟨mx, hmx⟩ := Option.isSome_iff_exists.mp hix
  obtain ⟨my, hmy⟩ := Option.isSome_iff_exists.mp hiy
  rw [equivalent_matched_iff hm, canonical_matchable hlx hmx, canonical_matchable hly hmy,
    Canonical.identitySet.injEq, Keyed.map_eq_map_iff (sorted_of_index hmx) (sorted_of_index hmy)]
  apply forall_congr'
  intro id
  rw [find?_of_index hmx, find?_of_index hmy]
  apply rel_iff_map_canonical
  intro v w hv hw
  exact ih v (find?_eq_some hv).1 w (find?_eq_some hw).1

/-- Lists with equivalent items at all positions are matched by identity both or neither, so it
does no harm that the comparison of two lists depends on both of them. -/
private theorem equivalent_positions_canonical {xs ys : List Node}
    (hm : rule.matchesByIdentity xs ys = false)
    (ih : ∀ v ∈ xs, ∀ w ∈ ys,
      (rule.equivalent v w = true ↔ rule.canonical v = rule.canonical w)) :
    rule.equivalent (.list xs) (.list ys) = true ↔
      rule.canonical (.list xs) = rule.canonical (.list ys) := by
  have hitems : rule.equivalent (.list xs) (.list ys) = true ↔
      xs.map rule.canonical = ys.map rule.canonical := by
    rw [equivalent_positions_iff hm, List.ext_getElem?_iff]
    apply forall_congr'
    intro i
    rw [List.getElem?_map, List.getElem?_map]
    apply rel_iff_map_canonical
    intro v w hv hw
    exact ih v (List.mem_of_getElem? hv) w (List.mem_of_getElem? hw)
  have hboth : ¬(rule.isMatchable xs = true ∧ rule.isMatchable ys = true) := by
    rw [← matchesByIdentity_iff, hm]
    simp
  rw [hitems]
  constructor
  · intro h
    have hxy := isMatchable_congr h
    cases hx : rule.isMatchable xs with
    | true => exact absurd ⟨hx, hxy ▸ hx⟩ hboth
    | false => rw [canonical_list hx, canonical_list (hxy ▸ hx), h]
  · intro h
    cases hx : rule.isMatchable xs <;> cases hy : rule.isMatchable ys
    · rw [canonical_list hx, canonical_list hy] at h
      exact Canonical.list.inj h
    · simp [canonical, hx, hy] at h
    · simp [canonical, hx, hy] at h
    · exact absurd ⟨hx, hy⟩ hboth

theorem equivalent_iff_canonical_eq {a b : Node} (ha : a.WellFormed) (hb : b.WellFormed) :
    rule.equivalent a b = true ↔ rule.canonical a = rule.canonical b := by
  induction a generalizing b with
  | mapping xs ih =>
    cases b with
    | mapping ys =>
      have hxs := ((Node.wellFormed_mapping_iff).mp ha).1
      have hys := ((Node.wellFormed_mapping_iff).mp hb).1
      rw [equivalent_mapping_iff hxs hys, canonical_mapping, canonical_mapping,
        Canonical.mapping.injEq, Keyed.map_eq_map_iff hxs hys]
      apply forall_congr'
      intro k
      apply rel_iff_map_canonical
      intro v w hv hw
      exact ih (k, v) (Keyed.mem_of_find? hv) (ha.of_find? hv) (hb.of_find? hw)
    | list ys => cases hy : rule.isMatchable ys <;> simp [equivalent, canonical, hy]
    | scalar t => simp [equivalent, canonical]
  | list xs ih =>
    cases b with
    | mapping ys => cases hx : rule.isMatchable xs <;> simp [equivalent, canonical, hx]
    | list ys =>
      have hitems : ∀ v ∈ xs, ∀ w ∈ ys,
          (rule.equivalent v w = true ↔ rule.canonical v = rule.canonical w) :=
        fun v hv w hw => ih v hv ((Node.wellFormed_list_iff).mp ha v hv)
          ((Node.wellFormed_list_iff).mp hb w hw)
      cases hm : rule.matchesByIdentity xs ys with
      | true => exact equivalent_matched_canonical hm hitems
      | false => exact equivalent_positions_canonical hm hitems
    | scalar t => cases hx : rule.isMatchable xs <;> simp [equivalent, canonical, hx]
  | scalar s =>
    cases b with
    | mapping ys => simp [equivalent, canonical]
    | list ys => cases hy : rule.isMatchable ys <;> simp [equivalent, canonical, hy]
    | scalar t =>
      simp only [equivalent, canonical, Canonical.scalar.injEq]
      exact ⟨fun h => Quotient.sound h, Quotient.exact⟩

theorem equivalent_refl {a : Node} (ha : a.WellFormed) : rule.equivalent a a = true :=
  (equivalent_iff_canonical_eq ha ha).mpr rfl

theorem equivalent_symm {a b : Node} (ha : a.WellFormed) (hb : b.WellFormed)
    (h : rule.equivalent a b = true) : rule.equivalent b a = true :=
  (equivalent_iff_canonical_eq hb ha).mpr ((equivalent_iff_canonical_eq ha hb).mp h).symm

theorem equivalent_trans {a b c : Node} (ha : a.WellFormed) (hb : b.WellFormed)
    (hc : c.WellFormed) (hab : rule.equivalent a b = true) (hbc : rule.equivalent b c = true) :
    rule.equivalent a c = true := by
  rw [equivalent_iff_canonical_eq ha hb] at hab
  rw [equivalent_iff_canonical_eq hb hc] at hbc
  exact (equivalent_iff_canonical_eq ha hc).mpr (hab.trans hbc)

private theorem canonicalElements_congr {xs ys : List Node}
    (h : xs.map rule.canonical = ys.map rule.canonical) :
    rule.canonicalElements xs = rule.canonicalElements ys := by
  induction xs generalizing ys with
  | nil => rw [List.map_eq_nil_iff.mp h.symm]
  | cons v xs ih =>
    cases ys with
    | nil => simp at h
    | cons w ys =>
      obtain ⟨hv, hrest⟩ := List.cons.inj h
      have hid : rule.identityOf v = rule.identityOf w := by
        rw [identityOf_eq, identityOf_eq, hv]
      rw [canonicalElements, canonicalElements, hid, hv, ih hrest]

theorem canonical_list_congr {xs ys : List Node}
    (h : xs.map rule.canonical = ys.map rule.canonical) :
    rule.canonical (.list xs) = rule.canonical (.list ys) := by
  have hm := isMatchable_congr h
  cases hx : rule.isMatchable xs with
  | true =>
    rw [canonical, canonical, if_pos hx, if_pos (hm ▸ hx), canonicalElements_congr h]
  | false => rw [canonical_list hx, canonical_list (hm ▸ hx), h]

theorem equivalent_of_positions {xs ys : List Node} (hx : (Node.list xs).WellFormed)
    (hy : (Node.list ys).WellFormed)
    (h : ∀ i : Nat, Option.Rel (fun v w => rule.equivalent v w = true) xs[i]? ys[i]?) :
    rule.equivalent (.list xs) (.list ys) = true := by
  rw [equivalent_iff_canonical_eq hx hy]
  apply canonical_list_congr
  rw [List.ext_getElem?_iff]
  intro i
  rw [List.getElem?_map, List.getElem?_map]
  apply (rel_iff_map_canonical _).mp (h i)
  intro v w hv hw
  exact equivalent_iff_canonical_eq
    ((Node.wellFormed_list_iff).mp hx v (List.mem_of_getElem? hv))
    ((Node.wellFormed_list_iff).mp hy w (List.mem_of_getElem? hw))

/-- Two nodes are equivalent exactly when their canonical forms are the same. Hence equivalence is
an equivalence relation, although it chooses how to compare two lists by looking at both. -/
theorem equivalent_reference_meaning (rule : IdentityRule) :
    (∀ a b : WellFormedNode,
      rule.equivalent a b = true ↔ rule.canonical a = rule.canonical b) ∧
      Equivalence fun a b : WellFormedNode => rule.equivalent a b = true := by
  refine ⟨fun a b => equivalent_iff_canonical_eq a.2 b.2, ?_, ?_, ?_⟩
  · intro a
    exact equivalent_refl a.2
  · intro a b
    exact equivalent_symm a.2 b.2
  · intro a b c
    exact equivalent_trans a.2 b.2 c.2

end IdentityRule
end ManifestDiff
