import ManifestDiff.Keyed
import Mathlib.Data.List.Induction
import Mathlib.Data.List.Nodup
import Mathlib.Data.List.Perm.Subperm
/-!
# Laws of lists sorted by key

A sorted list of entries is a finite map: every operation on it is known by its lookups, two sorted
lists with the same lookups are equal, and the sorted union of the keys of two of them visits every
key of either one exactly once.
-/
namespace ManifestDiff.Keyed

open Std

variable {α β γ : Type} [Ord α] [TransOrd α] [LawfulEqOrd α]

omit [TransOrd α] in
@[simp] theorem find?_cons_self (k : α) (v : β) (rest : List (α × β)) :
    find? k ((k, v) :: rest) = some v := by
  simp [find?]

omit [TransOrd α] in
theorem find?_cons_of_ne {k l : α} (h : k ≠ l) (v : β) (rest : List (α × β)) :
    find? k ((l, v) :: rest) = find? k rest := by
  have hne : compare k l ≠ .eq := fun he => h (LawfulEqOrd.compare_eq_iff_eq.mp he)
  simp [find?, hne]

omit [TransOrd α] in
theorem mem_of_find? {k : α} {v : β} {entries : List (α × β)}
    (h : find? k entries = some v) : (k, v) ∈ entries := by
  induction entries with
  | nil => simp [find?] at h
  | cons entry rest ih =>
    obtain ⟨l, w⟩ := entry
    by_cases hkl : k = l
    · subst l
      rw [find?_cons_self] at h
      cases h
      exact List.mem_cons_self
    · rw [find?_cons_of_ne hkl] at h
      exact List.mem_cons_of_mem _ (ih h)

omit [TransOrd α] in
theorem find?_eq_none_iff {k : α} {entries : List (α × β)} :
    find? k entries = none ↔ k ∉ entries.map Prod.fst := by
  induction entries with
  | nil => simp [find?]
  | cons entry rest ih =>
    obtain ⟨l, w⟩ := entry
    by_cases hkl : k = l
    · subst l
      simp
    · rw [find?_cons_of_ne hkl, ih]
      simp [hkl]

omit [TransOrd α] in
theorem find?_isSome_iff {k : α} {entries : List (α × β)} :
    (find? k entries).isSome ↔ k ∈ entries.map Prod.fst := by
  rw [Option.isSome_iff_ne_none, ne_eq, find?_eq_none_iff, not_not]

omit [TransOrd α] in
theorem find?_of_mem {k : α} {v : β} {entries : List (α × β)}
    (hnd : (entries.map Prod.fst).Nodup) (h : (k, v) ∈ entries) :
    find? k entries = some v := by
  induction entries with
  | nil => simp at h
  | cons entry rest ih =>
    obtain ⟨l, w⟩ := entry
    have hl := (List.nodup_cons.mp hnd).1
    rcases List.mem_cons.mp h with he | hm
    · cases he
      exact find?_cons_self _ _ _
    · have hk : k ∈ rest.map Prod.fst := List.mem_map_of_mem hm
      have hkl : k ≠ l := fun he => hl (he ▸ hk)
      rw [find?_cons_of_ne hkl, ih (List.nodup_cons.mp hnd).2 hm]

omit [TransOrd α] in
theorem find?_perm {xs ys : List (α × β)} (hnd : (xs.map Prod.fst).Nodup) (h : ys.Perm xs)
    (k : α) : find? k ys = find? k xs := by
  have hkeys : (ys.map Prod.fst).Perm (xs.map Prod.fst) := h.map Prod.fst
  cases hv : find? k xs with
  | some v => exact find?_of_mem (hkeys.nodup_iff.mpr hnd) (h.mem_iff.mpr (mem_of_find? hv))
  | none =>
    rw [find?_eq_none_iff] at hv ⊢
    rwa [hkeys.mem_iff]

omit [TransOrd α] in
theorem find?_map (f : β → γ) (k : α) (entries : List (α × β)) :
    find? k (entries.map fun entry => (entry.1, f entry.2)) = (find? k entries).map f := by
  induction entries with
  | nil => rfl
  | cons entry rest ih =>
    obtain ⟨l, w⟩ := entry
    by_cases hkl : k = l
    · subst l
      simp
    · rw [List.map_cons, find?_cons_of_ne hkl, find?_cons_of_ne hkl, ih]

abbrev Increasing (keys : List α) : Prop :=
  keys.Pairwise fun a b => compare a b = .lt

omit [LawfulEqOrd α] in
theorem Increasing.nodup {keys : List α} (h : Increasing keys) : keys.Nodup := by
  apply List.Pairwise.imp _ h
  intro a b hab he
  rw [he, ReflOrd.compare_self] at hab
  cases hab

omit [LawfulEqOrd α] in
theorem Increasing.ext {keys keys' : List α} (h : Increasing keys) (h' : Increasing keys')
    (hmem : ∀ k, k ∈ keys ↔ k ∈ keys') : keys = keys' := by
  have hperm : List.Perm keys keys' :=
    (List.perm_ext_iff_of_nodup h.nodup h'.nodup).mpr hmem
  apply hperm.eq_of_pairwise _ h h'
  intro a b _ _ hab hba
  exact absurd hba (OrientedCmp.not_lt_of_lt hab)

omit [TransOrd α] [LawfulEqOrd α] in
theorem Sorted.increasing {entries : List (α × β)} (h : Sorted entries) :
    Increasing (entries.map Prod.fst) :=
  List.pairwise_map.mpr h

omit [LawfulEqOrd α] in
theorem Sorted.nodup {entries : List (α × β)} (h : Sorted entries) :
    (entries.map Prod.fst).Nodup :=
  h.increasing.nodup

omit [TransOrd α] [LawfulEqOrd α] in
theorem Sorted.map {entries : List (α × β)} (h : Sorted entries) (f : β → γ) :
    Sorted (entries.map fun entry => (entry.1, f entry.2)) :=
  List.pairwise_map.mpr h

omit [LawfulEqOrd α] in
theorem Sorted.ext_mem {xs ys : List (α × β)} (hx : Sorted xs) (hy : Sorted ys)
    (h : ∀ entry, entry ∈ xs ↔ entry ∈ ys) : xs = ys := by
  have hperm : List.Perm xs ys :=
    (List.perm_ext_iff_of_nodup hx.nodup.of_map hy.nodup.of_map).mpr h
  apply hperm.eq_of_pairwise _ hx hy
  intro a b _ _ hab hba
  exact absurd hba (OrientedCmp.not_lt_of_lt hab)

theorem Sorted.ext {xs ys : List (α × β)} (hx : Sorted xs) (hy : Sorted ys)
    (h : ∀ k, find? k xs = find? k ys) : xs = ys := by
  apply hx.ext_mem hy
  intro entry
  constructor
  · intro hm
    exact mem_of_find? ((h entry.1).symm.trans (find?_of_mem hx.nodup hm))
  · intro hm
    exact mem_of_find? ((h entry.1).trans (find?_of_mem hy.nodup hm))

omit [TransOrd α] in
theorem find?_insert_self (k : α) (v : β) (entries : List (α × β)) :
    find? k (insert k v entries) = some v := by
  induction entries with
  | nil => simp [insert]
  | cons entry rest ih =>
    obtain ⟨l, w⟩ := entry
    rw [insert]
    cases hc : compare k l with
    | lt => simp
    | eq => simp
    | gt =>
      have hkl : k ≠ l := by
        intro he
        rw [he, ReflOrd.compare_self] at hc
        cases hc
      rw [find?_cons_of_ne hkl, ih]

omit [TransOrd α] in
theorem find?_insert_of_ne {k l : α} (h : l ≠ k) (v : β) (entries : List (α × β)) :
    find? l (insert k v entries) = find? l entries := by
  induction entries with
  | nil => rw [insert, find?_cons_of_ne h]
  | cons entry rest ih =>
    obtain ⟨m, w⟩ := entry
    rw [insert]
    cases hc : compare k m with
    | lt => rw [find?_cons_of_ne h]
    | eq =>
      have hkm : k = m := LawfulEqOrd.compare_eq_iff_eq.mp hc
      subst m
      rw [find?_cons_of_ne h, find?_cons_of_ne h]
    | gt =>
      by_cases hlm : l = m
      · subst m
        simp
      · rw [find?_cons_of_ne hlm, find?_cons_of_ne hlm, ih]

omit [TransOrd α] [LawfulEqOrd α] in
theorem map_insert (f : β → γ) (k : α) (v : β) (entries : List (α × β)) :
    (insert k v entries).map (fun entry => (entry.1, f entry.2)) =
      insert k (f v) (entries.map fun entry => (entry.1, f entry.2)) := by
  induction entries with
  | nil => rfl
  | cons head rest ih =>
    obtain ⟨l, w⟩ := head
    simp only [insert, List.map_cons]
    cases compare k l with
    | lt => rfl
    | eq => rfl
    | gt => rw [List.map_cons, ih]

theorem Sorted.insert {entries : List (α × β)} (h : Sorted entries) (k : α) (v : β) :
    Sorted (insert k v entries) := by
  induction entries with
  | nil => simp [Keyed.insert, Sorted]
  | cons head rest ih =>
    obtain ⟨l, w⟩ := head
    obtain ⟨hl, hrest⟩ := List.pairwise_cons.mp h
    rw [Keyed.insert]
    cases hc : compare k l with
    | lt =>
      apply List.pairwise_cons.mpr
      refine ⟨?_, h⟩
      intro entry hm
      rcases List.mem_cons.mp hm with rfl | hm
      · exact hc
      · exact TransCmp.lt_trans hc (hl entry hm)
    | eq =>
      have hkl : k = l := LawfulEqOrd.compare_eq_iff_eq.mp hc
      subst l
      exact List.pairwise_cons.mpr ⟨hl, hrest⟩
    | gt =>
      apply List.pairwise_cons.mpr
      refine ⟨?_, ih hrest⟩
      intro entry hm
      rcases mem_of_mem_insert hm with rfl | hm
      · exact OrientedCmp.lt_of_gt hc
      · exact hl entry hm

private theorem foldl_insert_sorted (entries : List (α × β)) {start : List (α × β)}
    (h : Sorted start) : Sorted (entries.foldl (fun map (k, v) => insert k v map) start) := by
  induction entries generalizing start with
  | nil => exact h
  | cons entry rest ih => exact ih (h.insert entry.1 entry.2)

theorem sorted_ofList (entries : List (α × β)) : Sorted (ofList entries) :=
  foldl_insert_sorted entries List.Pairwise.nil

omit [TransOrd α] [LawfulEqOrd α] in
private theorem mem_of_mem_foldl_insert {entry : α × β} (entries : List (α × β))
    {start : List (α × β)} (h : entry ∈ entries.foldl (fun map (k, v) => insert k v map) start) :
    entry ∈ start ∨ entry ∈ entries := by
  induction entries generalizing start with
  | nil => exact Or.inl h
  | cons head rest ih =>
    rcases ih h with hm | hm
    · rcases mem_of_mem_insert hm with rfl | hm
      · exact Or.inr List.mem_cons_self
      · exact Or.inl hm
    · exact Or.inr (List.mem_cons_of_mem _ hm)

omit [TransOrd α] [LawfulEqOrd α] in
theorem mem_of_mem_ofList {entry : α × β} {entries : List (α × β)} (h : entry ∈ ofList entries) :
    entry ∈ entries :=
  (mem_of_mem_foldl_insert entries h).resolve_left List.not_mem_nil

omit [TransOrd α] [LawfulEqOrd α] in
theorem ofList_concat (entries : List (α × β)) (k : α) (v : β) :
    ofList (entries ++ [(k, v)]) = insert k v (ofList entries) := by
  rw [ofList, List.foldl_append]
  rfl

omit [TransOrd α] in
theorem find?_ofList [DecidableEq α] (k : α) (entries : List (α × β)) :
    find? k (ofList entries) =
      ((entries.filter fun entry => entry.1 = k).getLast?).map Prod.snd := by
  induction entries using List.reverseRecOn with
  | nil => rfl
  | append_singleton entries entry ih =>
    obtain ⟨l, v⟩ := entry
    rw [ofList_concat]
    by_cases hlk : l = k
    · subst l
      simp [find?_insert_self]
    · rw [find?_insert_of_ne (Ne.symm hlk), ih]
      simp [hlk]

omit [LawfulEqOrd α] in
private theorem insert_of_lt {k : α} {entries : List (α × β)}
    (h : ∀ entry ∈ entries, compare entry.1 k = .lt) (v : β) :
    insert k v entries = entries ++ [(k, v)] := by
  induction entries with
  | nil => rfl
  | cons head rest ih =>
    obtain ⟨hhead, hrest⟩ := List.forall_mem_cons.mp h
    rw [insert, OrientedCmp.gt_of_lt hhead]
    exact congrArg (List.cons head) (ih hrest)

omit [LawfulEqOrd α] in
theorem Sorted.ofList_eq {entries : List (α × β)} (h : Sorted entries) :
    ofList entries = entries := by
  induction entries using List.reverseRecOn with
  | nil => rfl
  | append_singleton entries entry ih =>
    obtain ⟨hsorted, -, hlast⟩ := List.pairwise_append.mp h
    rw [ofList_concat, ih hsorted]
    exact insert_of_lt (fun e hm => hlast e hm entry List.mem_cons_self) entry.2

omit [TransOrd α] in
private theorem perm_insert {k : α} {entries : List (α × β)} (h : find? k entries = none) (v : β) :
    (insert k v entries).Perm ((k, v) :: entries) := by
  induction entries with
  | nil => exact .refl _
  | cons head rest ih =>
    obtain ⟨l, w⟩ := head
    have hne : k ≠ l := by
      rintro rfl
      simp at h
    rw [find?_cons_of_ne hne] at h
    rw [insert]
    cases hc : compare k l with
    | lt => exact .refl _
    | eq => exact absurd (LawfulEqOrd.eq_of_compare hc) hne
    | gt => exact ((ih h).cons (l, w)).trans (List.Perm.swap (k, v) (l, w) rest)

omit [TransOrd α] in
theorem perm_ofList {entries : List (α × β)} (h : (entries.map Prod.fst).Nodup) :
    (ofList entries).Perm entries := by
  induction entries using List.reverseRecOn with
  | nil => exact .refl _
  | append_singleton entries entry ih =>
    rw [List.map_append, List.nodup_append'] at h
    obtain ⟨hnodup, -, hnew⟩ := h
    have hperm : (ofList entries).Perm entries := ih hnodup
    have hnone : find? entry.1 (ofList entries) = none := by
      rw [find?_eq_none_iff, (hperm.map Prod.fst).mem_iff]
      exact List.disjoint_right.mp hnew (List.mem_cons_self)
    rw [ofList_concat]
    exact ((perm_insert hnone entry.2).trans (hperm.cons entry)).trans
      (List.perm_append_singleton entry entries).symm

omit [TransOrd α] in
theorem mem_insertKey {k l : α} {keys : List α} : l ∈ insertKey k keys ↔ l = k ∨ l ∈ keys := by
  induction keys with
  | nil => simp [insertKey]
  | cons m rest ih =>
    rw [insertKey]
    cases hc : compare k m with
    | lt => simp
    | eq =>
      have hkm : k = m := LawfulEqOrd.compare_eq_iff_eq.mp hc
      subst m
      simp
    | gt =>
      simp only [List.mem_cons, ih]
      exact or_left_comm

omit [TransOrd α] in
@[simp] theorem mem_sortKeys {l : α} {keys : List α} : l ∈ sortKeys keys ↔ l ∈ keys := by
  induction keys with
  | nil => simp [sortKeys]
  | cons k rest ih =>
    change l ∈ insertKey k (sortKeys rest) ↔ _
    rw [mem_insertKey, ih, List.mem_cons]

private theorem insertKey_increasing (k : α) {keys : List α} (h : Increasing keys) :
    Increasing (insertKey k keys) := by
  induction keys with
  | nil => simp [insertKey]
  | cons m rest ih =>
    obtain ⟨hm, hrest⟩ := List.pairwise_cons.mp h
    rw [insertKey]
    cases hc : compare k m with
    | lt =>
      apply List.pairwise_cons.mpr
      refine ⟨?_, h⟩
      intro l hl
      rcases List.mem_cons.mp hl with rfl | hl
      · exact hc
      · exact TransCmp.lt_trans hc (hm l hl)
    | eq => exact h
    | gt =>
      apply List.pairwise_cons.mpr
      refine ⟨?_, ih hrest⟩
      intro l hl
      rcases (mem_insertKey).mp hl with rfl | hl
      · exact OrientedCmp.lt_of_gt hc
      · exact hm l hl

theorem sortKeys_increasing (keys : List α) : Increasing (sortKeys keys) := by
  induction keys with
  | nil => exact List.Pairwise.nil
  | cons k rest ih => exact insertKey_increasing k ih

theorem sortKeys_nodup (keys : List α) : (sortKeys keys).Nodup :=
  (sortKeys_increasing keys).nodup

theorem sortKeys_congr {keys keys' : List α} (h : ∀ k, k ∈ keys ↔ k ∈ keys') :
    sortKeys keys = sortKeys keys' := by
  apply (sortKeys_increasing _).ext (sortKeys_increasing _)
  intro k
  rw [mem_sortKeys, mem_sortKeys, h]

theorem sortKeys_append_comm (keys keys' : List α) :
    sortKeys (keys ++ keys') = sortKeys (keys' ++ keys) := by
  apply sortKeys_congr
  intro k
  rw [List.mem_append, List.mem_append, or_comm]

omit [TransOrd α] in
theorem mem_unionKeys {k : α} {xs : List (α × β)} {ys : List (α × γ)} :
    k ∈ unionKeys xs ys ↔ k ∈ xs.map Prod.fst ∨ k ∈ ys.map Prod.fst := by
  rw [unionKeys, mem_sortKeys, List.mem_append]

omit [TransOrd α] in
theorem find?_of_not_mem_unionKeys {k : α} {xs : List (α × β)} {ys : List (α × γ)}
    (h : k ∉ unionKeys xs ys) : find? k xs = none ∧ find? k ys = none := by
  rw [mem_unionKeys, not_or] at h
  exact ⟨(find?_eq_none_iff).mpr h.1, (find?_eq_none_iff).mpr h.2⟩

omit [TransOrd α] in
theorem rel_find?_iff {R : β → γ → Prop} {xs : List (α × β)} {ys : List (α × γ)}
    (hx : (xs.map Prod.fst).Nodup) (hy : (ys.map Prod.fst).Nodup) :
    (∀ k, Option.Rel R (find? k xs) (find? k ys)) ↔
      xs.length = ys.length ∧ ∀ entry ∈ xs, ∃ w, find? entry.1 ys = some w ∧ R entry.2 w := by
  constructor
  · intro h
    have hkeys : List.Perm (xs.map Prod.fst) (ys.map Prod.fst) := by
      apply (List.perm_ext_iff_of_nodup hx hy).mpr
      intro k
      rw [← find?_isSome_iff, ← find?_isSome_iff]
      have hr := h k
      cases hv : find? k xs <;> cases hw : find? k ys <;> simp_all
    refine ⟨by simpa using hkeys.length_eq, ?_⟩
    intro entry hm
    have hr := h entry.1
    rw [find?_of_mem hx hm] at hr
    cases hw : find? entry.1 ys with
    | none => simp [hw] at hr
    | some w => exact ⟨w, rfl, by simpa [hw] using hr⟩
  · rintro ⟨hlen, h⟩ k
    have hsub : xs.map Prod.fst ⊆ ys.map Prod.fst := by
      intro l hl
      obtain ⟨entry, hm, rfl⟩ := List.mem_map.mp hl
      obtain ⟨w, hw, _⟩ := h entry hm
      exact List.mem_map_of_mem (mem_of_find? hw)
    -- as many keys on either side, so the right has no key that the left lacks
    have hkeys : List.Perm (xs.map Prod.fst) (ys.map Prod.fst) :=
      (List.subperm_of_subset hx hsub).perm_of_length_le (by simp [hlen])
    cases hv : find? k xs with
    | none =>
      have hk : k ∉ ys.map Prod.fst := fun hk => (find?_eq_none_iff).mp hv (hkeys.mem_iff.mpr hk)
      rw [(find?_eq_none_iff).mpr hk]
      exact .none
    | some v =>
      obtain ⟨w, hw, hr⟩ := h (k, v) (mem_of_find? hv)
      rw [hw]
      exact .some hr

omit [TransOrd α] in
theorem rel_find?_of_forall₂ {R : β → γ → Prop} {xs : List (α × β)} {ys : List (α × γ)}
    (h : List.Forall₂ (fun e f => e.1 = f.1 ∧ R e.2 f.2) xs ys) (k : α) :
    Option.Rel R (find? k xs) (find? k ys) := by
  induction h with
  | nil => exact .none
  | @cons e f xs ys he _ ih =>
    obtain ⟨l, v⟩ := e
    obtain ⟨m, w⟩ := f
    obtain ⟨hlm, hr⟩ := he
    change l = m at hlm
    subst m
    by_cases hkl : k = l
    · subst l
      rw [find?_cons_self, find?_cons_self]
      exact .some hr
    · rw [find?_cons_of_ne hkl, find?_cons_of_ne hkl]
      exact ih

theorem map_eq_map_iff {δ : Type} {f : β → δ} {g : γ → δ} {xs : List (α × β)} {ys : List (α × γ)}
    (hx : Sorted xs) (hy : Sorted ys) :
    (xs.map fun entry => (entry.1, f entry.2)) = (ys.map fun entry => (entry.1, g entry.2)) ↔
      ∀ k, (find? k xs).map f = (find? k ys).map g := by
  constructor
  · intro h k
    rw [← find?_map, h, find?_map]
  · intro h
    apply (hx.map f).ext (hy.map g)
    intro k
    rw [find?_map, find?_map, h k]

end ManifestDiff.Keyed
