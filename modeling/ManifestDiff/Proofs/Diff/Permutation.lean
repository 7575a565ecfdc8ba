import ManifestDiff.Proofs.Diff.Silence
/-!
# Elements in another order

The comparison of two lists that are matched by identity finds the elements by their identities and
visits these in increasing order, so the order of the elements does not count. It does count which
element comes first, as the others are not asked for the keys that make a list an identity list.
-/
namespace ManifestDiff

namespace IdentityRule

def CarriesKeys (rule : IdentityRule) (item : Node) : Prop :=
  (item.get? rule.nameKey).isSome = true ∧ (item.get? rule.typeKey).isSome = true

def FirstCarriesKeys (rule : IdentityRule) (items : List Node) : Prop :=
  ∃ first, items.head? = some first ∧ rule.CarriesKeys first

variable {rule : IdentityRule} {xs xs' ys ys' : List Node}

theorem isIdentityList_iff : rule.isIdentityList xs = true ↔ rule.FirstCarriesKeys xs := by
  cases xs with
  | nil => simp [isIdentityList, FirstCarriesKeys]
  | cons item rest => simp [isIdentityList_cons, FirstCarriesKeys, CarriesKeys]

theorem find?_perm (hx : rule.isMatchable xs = true) (h : xs'.Perm xs) (id : String) :
    rule.find? id xs' = rule.find? id xs := by
  have hindex := (Bool.and_eq_true_iff.mp hx).2
  rw [← find?_elements, ← find?_elements]
  exact Keyed.find?_perm (nodup_elements hindex) (h.filterMap _) id

theorem index_isSome_perm (h : xs'.Perm xs) :
    (rule.index xs').isSome = (rule.index xs).isSome := by
  have hids : (rule.identities xs').Perm (rule.identities xs) := h.filterMap rule.identityOf
  apply Bool.eq_iff_iff.mpr
  rw [index_isSome_iff, index_isSome_iff, hids.nodup_iff]
  simp only [h.mem_iff]

theorem isMatchable_perm_iff (hx : rule.isMatchable xs = true) (h : xs'.Perm xs) :
    rule.isMatchable xs' = true ↔ rule.FirstCarriesKeys xs' := by
  have hindex := (Bool.and_eq_true_iff.mp hx).2
  rw [isMatchable, index_isSome_perm h, hindex, Bool.and_true, isIdentityList_iff]

section Rearranged

variable (hx : rule.isMatchable xs = true) (hy : rule.isMatchable ys = true)
  (hx' : rule.isMatchable xs' = true) (hy' : rule.isMatchable ys' = true)
  (hxp : xs'.Perm xs) (hyp : ys'.Perm ys)
include hx hy hx' hy' hxp hyp

theorem equivalent_perm :
    rule.equivalent (.list xs') (.list ys') = rule.equivalent (.list xs) (.list ys) := by
  apply Bool.eq_iff_iff.mpr
  rw [equivalent_matched_iff ((matchesByIdentity_iff).mpr ⟨hx', hy'⟩),
    equivalent_matched_iff ((matchesByIdentity_iff).mpr ⟨hx, hy⟩)]
  simp only [find?_perm hx hxp, find?_perm hy hyp]

private theorem segments?_perm :
    rule.segments? (.list xs') (.list ys') = rule.segments? (.list xs) (.list ys) := by
  have hidx : (rule.identities xs').Perm (rule.identities xs) := hxp.filterMap rule.identityOf
  have hidy : (rule.identities ys').Perm (rule.identities ys) := hyp.filterMap rule.identityOf
  have hids : Keyed.sortKeys (rule.identities xs' ++ rule.identities ys') =
      Keyed.sortKeys (rule.identities xs ++ rule.identities ys) :=
    Keyed.sortKeys_congr fun _ => (hidx.append hidy).mem_iff
  rw [segments?, segments?, if_pos ((matchesByIdentity_iff).mpr ⟨hx', hy'⟩),
    if_pos ((matchesByIdentity_iff).mpr ⟨hx, hy⟩), hids]

theorem walk_perm (path : Path) :
    rule.walk path (.list xs') (.list ys') = rule.walk path (.list xs) (.list ys) := by
  have hm : rule.matchesByIdentity xs ys = true := (matchesByIdentity_iff).mpr ⟨hx, hy⟩
  have hm' : rule.matchesByIdentity xs' ys' = true := (matchesByIdentity_iff).mpr ⟨hx', hy'⟩
  have hequivalent := equivalent_perm hx hy hx' hy' hxp hyp
  cases h : rule.equivalent (.list xs) (.list ys) with
  | true => rw [walk_of_equivalent h, walk_of_equivalent (hequivalent.trans h)]
  | false =>
    have hs : rule.segments? (.list xs) (.list ys) =
        some ((Keyed.sortKeys (rule.identities xs ++ rule.identities ys)).map
          (.identity rule.label)) := if_pos hm
    have hs' := (segments?_perm hx hy hx' hy' hxp hyp).trans hs
    have hfallback : rule.fallbackSteps path (.list xs') (.list ys') =
        rule.fallbackSteps path (.list xs) (.list ys) := by
      simp [fallbackSteps, hm, hm']
    have hlengths : lengthsDiffer (.list xs') (.list ys') =
        lengthsDiffer (.list xs) (.list ys) := by
      rw [lengthsDiffer, lengthsDiffer, hxp.length_eq, hyp.length_eq]
    rw [walk_of_pieces h hs, walk_of_pieces (hequivalent.trans h) hs', hfallback, hlengths,
      List.flatMap_map, List.flatMap_map]
    congr 1
    apply List.flatMap_congr
    intro id _
    rw [child?_matchable hx', child?_matchable hy', child?_matchable hx, child?_matchable hy,
      find?_perm hx hxp, find?_perm hy hyp]

end Rearranged

theorem isMatchable_of_equivalent (hx : (Node.list xs).WellFormed) (hy : (Node.list ys).WellFormed)
    (h : rule.equivalent (.list xs) (.list ys) = true) :
    rule.isMatchable xs = rule.isMatchable ys := by
  have hcanonical := (equivalent_iff_canonical_eq hx hy).mp h
  cases hmx : rule.isMatchable xs <;> cases hmy : rule.isMatchable ys
  case false.false => rfl
  case true.true => rfl
  all_goals simp [canonical, hmx, hmy] at hcanonical

theorem wellFormed_list_perm (hx : (Node.list xs).WellFormed) (h : xs'.Perm xs) :
    (Node.list xs').WellFormed := by
  rw [Node.wellFormed_list_iff] at hx ⊢
  intro item hm
  exact hx item (h.mem_iff.mp hm)

theorem equivalent_perm_iff (hwf : (Node.list xs).WellFormed) (hx : rule.isMatchable xs = true)
    (h : xs'.Perm xs) :
    rule.equivalent (.list xs) (.list xs') = true ↔ rule.FirstCarriesKeys xs' := by
  have hwf' := wellFormed_list_perm hwf h
  rw [← isMatchable_perm_iff hx h]
  constructor
  · intro hequivalent
    rwa [← isMatchable_of_equivalent hwf hwf' hequivalent]
  · intro hx'
    rw [equivalent_perm hx hx hx hx' (.refl xs) h]
    exact equivalent_refl hwf

end IdentityRule

/-- In lists that are matched by identity the order of the elements does not count, as long as the
first one shows that the list is to be matched so. When it does not, the rearrangement is
reported. -/
theorem diff_of_rearranged (rule : IdentityRule) (path : Path) :
    (∀ xs ys xs' ys' : List Node, rule.isMatchable xs = true → rule.isMatchable ys = true →
      xs'.Perm xs → ys'.Perm ys → rule.FirstCarriesKeys xs' → rule.FirstCarriesKeys ys' →
      rule.diff path (.list xs') (.list ys') = rule.diff path (.list xs) (.list ys)) ∧
    ∀ xs xs' : List Node, (Node.list xs).WellFormed → rule.isMatchable xs = true →
      xs'.Perm xs →
      (rule.equivalent (.list xs) (.list xs') = true ↔ rule.FirstCarriesKeys xs') ∧
        (rule.diff path (.list xs) (.list xs') = [] ↔ rule.FirstCarriesKeys xs') := by
  constructor
  · intro xs ys xs' ys' hx hy hxp hyp hfx hfy
    have hx' := (IdentityRule.isMatchable_perm_iff hx hxp).mpr hfx
    have hy' := (IdentityRule.isMatchable_perm_iff hy hyp).mpr hfy
    rw [IdentityRule.diff, IdentityRule.diff,
      IdentityRule.walk_perm hx hy hx' hy' hxp hyp path]
  · intro xs xs' hwf hx h
    have hequivalent := IdentityRule.equivalent_perm_iff hwf hx h
    have hwf' := IdentityRule.wellFormed_list_perm hwf h
    exact ⟨hequivalent, (IdentityRule.diff_eq_nil_iff hwf hwf').trans hequivalent⟩

private def service (name image : String) : Node :=
  .ofJson (.object [("name", .string name), ("image", .string image)])

private def sidecar (name : String) : Node := .ofJson (.object [("name", .string name)])

/-- An update reads the same when both lists are rearranged behind a service. With the sidecar in
front, which has no image, the same elements are no longer equivalent. -/
theorem diff_of_rearranged_services :
    (IdentityRule.isMatchable {} [service "app" "v1", service "log" "v1", sidecar "tap"] = true ∧
      IdentityRule.isMatchable {} [service "app" "v2", service "log" "v1"] = true ∧
      [service "log" "v1", sidecar "tap", service "app" "v1"].Perm
        [service "app" "v1", service "log" "v1", sidecar "tap"] ∧
      [service "log" "v1", service "app" "v2"].Perm
        [service "app" "v2", service "log" "v1"] ∧
      IdentityRule.diff {} .root
          (.list [service "log" "v1", sidecar "tap", service "app" "v1"])
          (.list [service "log" "v1", service "app" "v2"]) =
        IdentityRule.diff {} .root
          (.list [service "app" "v1", service "log" "v1", sidecar "tap"])
          (.list [service "app" "v2", service "log" "v1"])) ∧
    (Node.list [service "app" "v1", sidecar "tap"]).WellFormed ∧
      [sidecar "tap", service "app" "v1"].Perm [service "app" "v1", sidecar "tap"] ∧
      IdentityRule.diff {} .root (.list [service "app" "v1", sidecar "tap"])
        (.list [sidecar "tap", service "app" "v1"]) ≠ [] := by
  have hx : IdentityRule.isMatchable {}
      [service "app" "v1", service "log" "v1", sidecar "tap"] = true := by decide
  have hy : IdentityRule.isMatchable {} [service "app" "v2", service "log" "v1"] = true := by decide
  have hxp : [service "log" "v1", sidecar "tap", service "app" "v1"].Perm
      [service "app" "v1", service "log" "v1", sidecar "tap"] :=
    @List.perm_append_comm _ [service "log" "v1", sidecar "tap"] [service "app" "v1"]
  have hyp : [service "log" "v1", service "app" "v2"].Perm
      [service "app" "v2", service "log" "v1"] := .swap _ _ _
  have hfirst (rest : List Node) : IdentityRule.FirstCarriesKeys {} (service "log" "v1" :: rest) :=
    ⟨service "log" "v1", rfl, rfl, rfl⟩
  have hwf : (Node.list [service "app" "v1", sidecar "tap"]).WellFormed := by
    rw [Node.wellFormed_list_iff, List.forall_mem_cons, List.forall_mem_singleton]
    exact ⟨Node.ofJson_wellFormed _, Node.ofJson_wellFormed _⟩
  have hz : IdentityRule.isMatchable {} [service "app" "v1", sidecar "tap"] = true := by decide
  have hzp : [sidecar "tap", service "app" "v1"].Perm [service "app" "v1", sidecar "tap"] :=
    .swap _ _ _
  have hsidecar : ¬IdentityRule.FirstCarriesKeys {} [sidecar "tap", service "app" "v1"] := by
    rw [← IdentityRule.isIdentityList_iff]
    decide
  obtain ⟨hdiff, hsame⟩ := diff_of_rearranged {} .root
  refine ⟨⟨hx, hy, hxp, hyp, hdiff _ _ _ _ hx hy hxp hyp (hfirst _) (hfirst _)⟩, hwf, hzp, ?_⟩
  exact fun hsilent => hsidecar ((hsame _ _ hwf hz hzp).2.mp hsilent)

end ManifestDiff
