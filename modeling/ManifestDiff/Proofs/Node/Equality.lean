import ManifestDiff.Proofs.Node.WellFormed
import Mathlib.Data.List.Forall2
/-!
# Equality of values

Equality of scalars is an equivalence: NaN is itself, and the two zeros are one number. Equal nodes
have the same shape, with equal scalars at the leaves.
-/
namespace ManifestDiff

namespace Binary64

private theorem equal_finite_iff (s t : Bool) (i j : Fin finiteCount) :
    (finite s i).equal (finite t j) = true ↔ i = j ∧ (s = t ∨ i.val = 0) := by
  change (decide (i = j) && (s == t || i.val == 0)) = true ↔ _
  rw [Bool.and_eq_true, Bool.or_eq_true, decide_eq_true_iff, beq_iff_eq, beq_iff_eq]

/-- Only the two zeros are equal without being the same. -/
theorem equal_iff {x y : Binary64} :
    x.equal y = true ↔ x = y ∨ ∃ s t i, x = finite s i ∧ y = finite t i ∧ i.val = 0 := by
  constructor
  · intro h
    match x, y with
    | .nan, .nan => exact Or.inl rfl
    | .infinite s, .infinite t => exact Or.inl (congrArg infinite (beq_iff_eq.mp h))
    | .finite s i, .finite t j =>
      obtain ⟨rfl, rfl | hzero⟩ := (equal_finite_iff s t i j).mp h
      · exact Or.inl rfl
      · exact Or.inr ⟨s, t, i, rfl, rfl, hzero⟩
  · rintro (rfl | ⟨s, t, i, rfl, rfl, hzero⟩)
    · match x with
      | .nan => rfl
      | .infinite s => exact beq_self_eq_true s
      | .finite s i => exact (equal_finite_iff s s i i).mpr ⟨rfl, Or.inl rfl⟩
    · exact (equal_finite_iff s t i i).mpr ⟨rfl, Or.inr hzero⟩

theorem equal_refl (x : Binary64) : x.equal x = true :=
  (equal_iff).mpr (Or.inl rfl)

theorem equal_symm {x y : Binary64} (h : x.equal y = true) : y.equal x = true := by
  rcases (equal_iff).mp h with rfl | ⟨s, t, i, rfl, rfl, hzero⟩
  · exact h
  · exact (equal_iff).mpr (Or.inr ⟨t, s, i, rfl, rfl, hzero⟩)

theorem equal_trans {x y z : Binary64} (hxy : x.equal y = true) (hyz : y.equal z = true) :
    x.equal z = true := by
  rcases (equal_iff).mp hxy with rfl | ⟨s, t, i, rfl, rfl, hzero⟩
  · exact hyz
  · rcases (equal_iff).mp hyz with rfl | ⟨_, u, j, hy, rfl, _⟩
    · exact hxy
    · cases hy
      exact (equal_iff).mpr (Or.inr ⟨s, u, i, rfl, rfl, hzero⟩)

end Binary64

namespace Scalar

theorem equal_refl (a : Scalar) : a.equal a = true := by
  cases a <;> simp [equal, Binary64.equal_refl]

theorem equal_symm {a b : Scalar} (h : a.equal b = true) : b.equal a = true := by
  cases a <;> cases b <;> simp only [equal, Bool.false_eq_true, beq_iff_eq] at h ⊢
  case float.float => exact Binary64.equal_symm h
  all_goals exact h.symm

theorem equal_trans {a b c : Scalar} (hab : a.equal b = true) (hbc : b.equal c = true) :
    a.equal c = true := by
  cases a <;> cases b <;> simp only [equal, Bool.false_eq_true, beq_iff_eq] at hab <;>
    cases c <;> simp only [equal, Bool.false_eq_true, beq_iff_eq] at hbc ⊢
  case float.float.float => exact Binary64.equal_trans hab hbc
  all_goals exact hab.trans hbc

instance setoid : Setoid Scalar where
  r a b := a.equal b = true
  iseqv := ⟨equal_refl, equal_symm, equal_trans⟩

theorem string?_eq_of_equal {a b : Scalar} (h : a.equal b = true) : a.string? = b.string? := by
  cases a <;> cases b <;> simp only [equal, Bool.false_eq_true, beq_iff_eq] at h
  case string.string => rw [h]
  all_goals rfl

end Scalar

namespace Node

private theorem equalItems_iff (xs ys : List Node) :
    equalItems xs ys = true ↔ List.Forall₂ (fun v w => v.equal w = true) xs ys := by
  induction xs generalizing ys with
  | nil => cases ys <;> simp [equalItems]
  | cons v xs ih => cases ys <;> simp [equalItems, ih]

private theorem equalEntries_iff (xs ys : List (String × Node)) :
    equalEntries xs ys = true ↔
      List.Forall₂ (fun e f => e.1 = f.1 ∧ e.2.equal f.2 = true) xs ys := by
  induction xs generalizing ys with
  | nil => cases ys <;> simp [equalEntries]
  | cons e xs ih => cases ys <;> simp [equalEntries, ih, and_assoc]

theorem equal_list_iff {xs ys : List Node} :
    (list xs).equal (list ys) = true ↔ List.Forall₂ (fun v w => v.equal w = true) xs ys := by
  rw [equal, equalItems_iff]

theorem equal_mapping_iff {xs ys : List (String × Node)} :
    (mapping xs).equal (mapping ys) = true ↔
      List.Forall₂ (fun e f => e.1 = f.1 ∧ e.2.equal f.2 = true) xs ys := by
  rw [equal, equalEntries_iff]

theorem equal_refl (node : Node) : node.equal node = true := by
  induction node with
  | mapping entries ih =>
    exact (equal_mapping_iff).mpr (List.forall₂_same.mpr fun entry hm => ⟨rfl, ih entry hm⟩)
  | list items ih => exact (equal_list_iff).mpr (List.forall₂_same.mpr ih)
  | scalar value => exact Scalar.equal_refl value

theorem string?_eq_of_equal {v w : Node} (h : v.equal w = true) : v.string? = w.string? := by
  cases v <;> cases w <;> simp only [equal, Bool.false_eq_true] at h
  case scalar.scalar => exact Scalar.string?_eq_of_equal h
  all_goals rfl

theorem rel_get?_of_equal {v w : Node} (h : v.equal w = true) (k : String) :
    Option.Rel (fun v w => v.equal w = true) (v.get? k) (w.get? k) := by
  cases v <;> cases w
  case mapping.mapping => exact Keyed.rel_find?_of_forall₂ ((equal_mapping_iff).mp h) k
  case list.list => exact .none
  case scalar.scalar => exact .none
  all_goals simp [equal] at h

end Node
end ManifestDiff
