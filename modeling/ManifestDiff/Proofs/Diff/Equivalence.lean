import ManifestDiff.Diff.Equivalence
import ManifestDiff.Proofs.Diff.Identity
import ManifestDiff.Proofs.Node.Equality
/-!
# What equivalence compares

Two values of one kind are equivalent exactly when the values at corresponding places are: under
every key of two mappings, under every identity of two lists that are matched by identity, and at
every position of two other lists. Places correspond when both are there or neither is.
-/
namespace ManifestDiff.IdentityRule

variable {rule : IdentityRule}

private theorem equivalentEntries_iff (xs ys : List (String × Node)) :
    rule.equivalentEntries xs ys = true ↔ ∀ entry ∈ xs,
      ∃ w, Keyed.find? entry.1 ys = some w ∧ rule.equivalent entry.2 w = true := by
  induction xs with
  | nil => simp [equivalentEntries]
  | cons entry xs ih =>
    rw [equivalentEntries, Bool.and_eq_true, ih, List.forall_mem_cons]
    cases Keyed.find? entry.1 ys <;> simp

private theorem equivalentElements_iff {xs : List Node} (ys : List Node)
    (hx : ∀ item ∈ xs, (rule.identityOf item).isSome = true) :
    rule.equivalentElements xs ys = true ↔ ∀ entry ∈ rule.elements xs,
      ∃ w, Keyed.find? entry.1 (rule.elements ys) = some w ∧
        rule.equivalent entry.2 w = true := by
  induction xs with
  | nil => simp [equivalentElements, elements]
  | cons item xs ih =>
    obtain ⟨hitem, hrest⟩ := List.forall_mem_cons.mp hx
    obtain ⟨id, hid⟩ := Option.isSome_iff_exists.mp hitem
    rw [equivalentElements, Bool.and_eq_true, ih hrest, elements_cons hid, List.forall_mem_cons,
      hid, find?_elements, Option.bind_some]
    cases rule.find? id ys <;> simp

private theorem equivalentItems_iff {xs ys : List Node} (hlen : xs.length = ys.length) :
    rule.equivalentItems xs ys = true ↔
      ∀ i : Nat, Option.Rel (fun v w => rule.equivalent v w = true) xs[i]? ys[i]? := by
  induction xs generalizing ys with
  | nil =>
    have hnil : ys = [] := List.length_eq_zero_iff.mp hlen.symm
    subst ys
    simp [equivalentItems]
  | cons v xs ih =>
    cases ys with
    | nil => simp at hlen
    | cons w ys =>
      rw [equivalentItems, Bool.and_eq_true, ih (by simpa using hlen)]
      constructor
      · rintro ⟨hv, htail⟩ i
        cases i with
        | zero => simpa using hv
        | succ i => simpa using htail i
      · intro h
        exact ⟨by simpa using h 0, fun i => by simpa using h (i + 1)⟩

private theorem length_eq_of_rel {R : Node → Node → Prop} {xs ys : List Node}
    (h : ∀ i : Nat, Option.Rel R xs[i]? ys[i]?) : xs.length = ys.length := by
  have hsame : ∀ i : Nat, xs.length ≤ i ↔ ys.length ≤ i := by
    intro i
    rw [← List.getElem?_eq_none_iff, ← List.getElem?_eq_none_iff]
    have hr := h i
    cases hx : xs[i]? <;> cases hy : ys[i]? <;> simp_all
  have hle := (hsame ys.length).mpr
  have hge := (hsame xs.length).mp
  omega

theorem equivalent_of_equal {v w : Node} (h : v.equal w = true) :
    rule.equivalent v w = true := by
  cases v <;> cases w <;> simp_all [equivalent, Node.equal]

private theorem identityOf_eq_of_equal {v w : Node} (h : v.equal w = true) :
    rule.identityOf v = rule.identityOf w := by
  rw [identityOf, identityOf]
  have hrel := Node.rel_get?_of_equal h rule.nameKey
  generalize v.get? rule.nameKey = x at hrel ⊢
  generalize w.get? rule.nameKey = y at hrel ⊢
  cases hrel with
  | none => rfl
  | some he => exact Node.string?_eq_of_equal he

private theorem forall₂_elements {xs ys : List Node}
    (h : List.Forall₂ (fun v w => v.equal w = true) xs ys) :
    List.Forall₂ (fun e f => e.1 = f.1 ∧ rule.equivalent e.2 f.2 = true)
      (rule.elements xs) (rule.elements ys) := by
  apply List.rel_filterMap _ h
  intro v w he
  simp only [identityOf_eq_of_equal he]
  cases rule.identityOf w with
  | none => exact .none
  | some id => exact .some ⟨rfl, equivalent_of_equal he⟩

private theorem rel_getElem?_of_forall₂ {xs ys : List Node}
    (h : List.Forall₂ (fun v w => v.equal w = true) xs ys) (i : Nat) :
    Option.Rel (fun v w => rule.equivalent v w = true) xs[i]? ys[i]? := by
  induction h generalizing i with
  | nil => exact .none
  | cons he _ ih =>
    cases i with
    | zero => exact .some (equivalent_of_equal he)
    | succ i => exact ih i

theorem equivalent_mapping_iff {xs ys : List (String × Node)} (hx : Keyed.Sorted xs)
    (hy : Keyed.Sorted ys) :
    rule.equivalent (.mapping xs) (.mapping ys) = true ↔ ∀ k,
      Option.Rel (fun v w => rule.equivalent v w = true) (Keyed.find? k xs) (Keyed.find? k ys) := by
  have hentries : (xs.length == ys.length && rule.equivalentEntries xs ys) = true ↔ ∀ k,
      Option.Rel (fun v w => rule.equivalent v w = true) (Keyed.find? k xs)
        (Keyed.find? k ys) := by
    rw [Keyed.rel_find?_iff hx.nodup hy.nodup, Bool.and_eq_true, beq_iff_eq,
      equivalentEntries_iff]
  rw [equivalent, Bool.or_eq_true, hentries, or_iff_right_iff_imp, Node.equal_mapping_iff]
  intro hequal k
  apply Keyed.rel_find?_of_forall₂
  exact hequal.imp fun _ _ he => ⟨he.1, equivalent_of_equal he.2⟩

theorem equivalent_matched_iff {xs ys : List Node} (h : rule.matchesByIdentity xs ys = true) :
    rule.equivalent (.list xs) (.list ys) = true ↔ ∀ id,
      Option.Rel (fun v w => rule.equivalent v w = true) (rule.find? id xs) (rule.find? id ys) := by
  obtain ⟨hmx, hmy⟩ := (matchesByIdentity_iff).mp h
  have hx := (Bool.and_eq_true_iff.mp hmx).2
  have hy := (Bool.and_eq_true_iff.mp hmy).2
  simp only [← find?_elements]
  have helements : (xs.length == ys.length && rule.equivalentElements xs ys) = true ↔ ∀ id,
      Option.Rel (fun v w => rule.equivalent v w = true) (Keyed.find? id (rule.elements xs))
        (Keyed.find? id (rule.elements ys)) := by
    rw [Keyed.rel_find?_iff (nodup_elements hx) (nodup_elements hy), Bool.and_eq_true, beq_iff_eq,
      equivalentElements_iff ys ((index_isSome_iff).mp hx).1, length_elements hx, length_elements hy]
  rw [equivalent, h, if_pos rfl, Bool.or_eq_true, helements, or_iff_right_iff_imp,
    Node.equal_list_iff]
  intro hequal id
  exact Keyed.rel_find?_of_forall₂ (forall₂_elements hequal) id

theorem equivalent_positions_iff {xs ys : List Node} (h : rule.matchesByIdentity xs ys = false) :
    rule.equivalent (.list xs) (.list ys) = true ↔
      ∀ i : Nat, Option.Rel (fun v w => rule.equivalent v w = true) xs[i]? ys[i]? := by
  have hitems : (xs.length == ys.length && rule.equivalentItems xs ys) = true ↔
      ∀ i : Nat, Option.Rel (fun v w => rule.equivalent v w = true) xs[i]? ys[i]? := by
    rw [Bool.and_eq_true, beq_iff_eq]
    constructor
    · rintro ⟨hlen, hitems⟩
      exact (equivalentItems_iff hlen).mp hitems
    · intro hrel
      exact ⟨length_eq_of_rel hrel, (equivalentItems_iff (length_eq_of_rel hrel)).mpr hrel⟩
  rw [equivalent, h, if_neg Bool.false_ne_true, Bool.or_eq_true, hitems, or_iff_right_iff_imp,
    Node.equal_list_iff]
  intro hequal i
  exact rel_getElem?_of_forall₂ hequal i

end ManifestDiff.IdentityRule
