import ManifestDiff.Text
import Mathlib.Data.List.Basic
/-!
# Text

Trimming removes nothing from a text that neither begins nor ends with a blank, and one more blank at
the end of a text makes no difference to it. A text of characters of one sort is told apart from what
follows where another sort begins, and a text that is written character by character, so that the form
of each character tells where it ends, tells all its characters.
-/
namespace ManifestDiff

theorem trimEnd_concat {c : Char} (h : isBlank c = true) (cs : List Char) :
    trimEnd (cs ++ [c]) = trimEnd cs := by
  rw [trimEnd, List.reverse_append, List.reverse_singleton, List.singleton_append,
    List.dropWhile_cons_of_pos h, trimEnd]

theorem trim_concat {c : Char} (h : isBlank c = true) (cs : List Char) :
    trim (cs ++ [c]) = trim cs := by
  rw [trim, trim, List.dropWhile_append]
  split
  next hempty =>
    have hblank : [c].dropWhile isBlank = [] := by simp [h]
    rw [hblank, List.isEmpty_iff.mp hempty]
  next => exact trimEnd_concat h _

private theorem dropWhile_eq_self {cs : List Char} (h : ∀ c ∈ cs.head?, isBlank c = false) :
    cs.dropWhile isBlank = cs := by
  cases cs with
  | nil => rfl
  | cons c cs => rw [List.dropWhile_cons_of_neg (by simp [h c rfl])]

theorem trim_eq_self {cs : List Char} (hhead : ∀ c ∈ cs.head?, isBlank c = false)
    (hlast : ∀ c ∈ cs.getLast?, isBlank c = false) : trim cs = cs := by
  have hend : ∀ c ∈ cs.reverse.head?, isBlank c = false := by
    rwa [List.head?_reverse]
  rw [trim, dropWhile_eq_self hhead, trimEnd, dropWhile_eq_self hend, List.reverse_reverse]

theorem trim_eq_self_of_not_blank {cs : List Char} (h : ∀ c ∈ cs, isBlank c = false) :
    trim cs = cs :=
  trim_eq_self (fun c hc => h c (List.mem_of_head? hc)) fun c hc => h c (List.mem_of_getLast? hc)

theorem trimEnd_subset (cs : List Char) : trimEnd cs ⊆ cs := by
  intro c hc
  exact List.mem_reverse.mp (List.dropWhile_subset _ (List.mem_reverse.mp hc))

theorem trim_subset (cs : List Char) : trim cs ⊆ cs :=
  fun _ hc => List.dropWhile_subset _ (trimEnd_subset _ hc)

theorem not_isBlank_of_isDigit {c : Char} (h : c.isDigit = true) : isBlank c = false := by
  simp only [Char.isDigit, Bool.and_eq_true, decide_eq_true_eq, ge_iff_le,
    UInt32.le_iff_toNat_le] at h
  simp [isBlank, UInt32.le_iff_toNat_le, ← UInt32.toNat_inj]
  simp at h
  omega

/-- Text of one sort ends where text of another sort begins. -/
theorem span_append_of_stop {p : Char → Bool} {cs rest : List Char} (hcs : ∀ c ∈ cs, p c = true)
    (hrest : ∀ c ∈ rest.head?, p c = false) :
    (cs ++ rest).takeWhile p = cs ∧ (cs ++ rest).dropWhile p = rest := by
  rw [List.takeWhile_append_of_pos hcs, List.dropWhile_append_of_pos hcs]
  cases rest with
  | nil => simp
  | cons c rest => simp [hrest c rfl]

theorem append_inj_of_stop {p : Char → Bool} {cs ds r s : List Char} (hcs : ∀ c ∈ cs, p c = true)
    (hds : ∀ d ∈ ds, p d = true) (hr : ∀ c ∈ r.head?, p c = false)
    (hs : ∀ c ∈ s.head?, p c = false) (h : cs ++ r = ds ++ s) : cs = ds ∧ r = s := by
  obtain ⟨htake, hdrop⟩ := span_append_of_stop hcs hr
  obtain ⟨htake', hdrop'⟩ := span_append_of_stop hds hs
  rw [h] at htake hdrop
  exact ⟨htake.symm.trans htake', hdrop.symm.trans hdrop'⟩

/-- Forms that can be read one by one, up to something that is no form, tell what they stand for. -/
theorem flatMap_append_inj {α β : Type} {f : α → List β} {read : List β → Option (α × List β)}
    (hread : ∀ x rest, read (f x ++ rest) = some (x, rest)) {stop : β}
    (hstop : ∀ rest, read (stop :: rest) = none) {xs ys : List α} {r s : List β}
    (h : xs.flatMap f ++ stop :: r = ys.flatMap f ++ stop :: s) : xs = ys ∧ r = s := by
  have hne (x : α) (r s : List β) : f x ++ r ≠ stop :: s := by
    intro heq
    have hboth := hread x r
    rw [heq, hstop] at hboth
    cases hboth
  induction xs generalizing ys with
  | nil =>
    cases ys with
    | nil => exact ⟨rfl, List.tail_eq_of_cons_eq h⟩
    | cons y ys =>
      rw [List.flatMap_cons, List.append_assoc] at h
      exact absurd h.symm (hne y _ _)
  | cons x xs ih =>
    rw [List.flatMap_cons, List.append_assoc] at h
    cases ys with
    | nil => exact absurd h (hne x _ _)
    | cons y ys =>
      rw [List.flatMap_cons, List.append_assoc] at h
      have hboth := hread x (xs.flatMap f ++ stop :: r)
      rw [h, hread] at hboth
      obtain ⟨rfl, hrest⟩ := Prod.mk.inj (Option.some.inj hboth)
      obtain ⟨rfl, hend⟩ := ih hrest.symm
      exact ⟨rfl, hend⟩

end ManifestDiff
