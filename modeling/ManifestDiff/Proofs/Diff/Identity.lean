import ManifestDiff.Diff.Equivalence
import ManifestDiff.Proofs.Node.WellFormed
/-!
# Laws of identity lists

The elements of a list, each under its identity, form a list of entries in which the identities are
looked up. A list can be indexed exactly when every element has an identity and no two have the same
one; its index then finds under an identity the one element that has it.
-/
namespace ManifestDiff.IdentityRule

variable (rule : IdentityRule)

def isMatchable (items : List Node) : Bool :=
  rule.isIdentityList items && (rule.index items).isSome

def elements (items : List Node) : List (String × Node) :=
  items.filterMap fun item => (rule.identityOf item).map fun id => (id, item)

variable {rule}

theorem matchesByIdentity_iff {xs ys : List Node} :
    rule.matchesByIdentity xs ys = true ↔
      rule.isMatchable xs = true ∧ rule.isMatchable ys = true := by
  simp only [matchesByIdentity, areIdentityLists, isMatchable, Bool.and_eq_true]
  tauto

theorem isIdentityList_cons (item : Node) (rest : List Node) :
    rule.isIdentityList (item :: rest) =
      ((item.get? rule.nameKey).isSome && (item.get? rule.typeKey).isSome) := by
  cases item <;> simp [isIdentityList, Keyed.contains, Node.get?, Node.entries?]

theorem find?_cons_of_eq {id : String} {item : Node} (h : rule.identityOf item = some id)
    (rest : List Node) : rule.find? id (item :: rest) = some item :=
  List.find?_cons_of_pos (beq_iff_eq.mpr h)

theorem find?_cons_of_ne {id : String} {item : Node} (h : rule.identityOf item ≠ some id)
    (rest : List Node) : rule.find? id (item :: rest) = rule.find? id rest :=
  List.find?_cons_of_neg (mt beq_iff_eq.mp h)

theorem identities_cons {id : String} {item : Node} (h : rule.identityOf item = some id)
    (rest : List Node) : rule.identities (item :: rest) = id :: rule.identities rest :=
  List.filterMap_cons_some h

theorem elements_cons {id : String} {item : Node} (h : rule.identityOf item = some id)
    (rest : List Node) : rule.elements (item :: rest) = (id, item) :: rule.elements rest :=
  List.filterMap_cons_some (by rw [h, Option.map_some])

theorem elements_cons_of_none {item : Node} (h : rule.identityOf item = none)
    (rest : List Node) : rule.elements (item :: rest) = rule.elements rest :=
  List.filterMap_cons_none (by rw [h, Option.map_none])

theorem map_fst_elements (items : List Node) :
    (rule.elements items).map Prod.fst = rule.identities items := by
  simp only [elements, identities, List.map_filterMap, Option.map_map]
  congr 1
  funext item
  cases rule.identityOf item <;> rfl

theorem find?_elements (id : String) (items : List Node) :
    Keyed.find? id (rule.elements items) = rule.find? id items := by
  induction items with
  | nil => rfl
  | cons item rest ih =>
    cases hid : rule.identityOf item with
    | none => rw [elements_cons_of_none hid, ih, find?_cons_of_ne (by simp [hid])]
    | some own =>
      rw [elements_cons hid]
      by_cases he : id = own
      · subst id
        rw [Keyed.find?_cons_self, find?_cons_of_eq hid]
      · rw [Keyed.find?_cons_of_ne he, ih, find?_cons_of_ne (by simp [hid, Ne.symm he])]

theorem find?_eq_some {id : String} {items : List Node} {v : Node}
    (h : rule.find? id items = some v) : v ∈ items ∧ rule.identityOf v = some id :=
  ⟨List.mem_of_find?_eq_some h, by simpa using List.find?_some h⟩

theorem find?_isSome_iff {id : String} {items : List Node} :
    (rule.find? id items).isSome ↔ id ∈ rule.identities items := by
  rw [← find?_elements, Keyed.find?_isSome_iff, map_fst_elements]

theorem mem_elements {id : String} {items : List Node} {v : Node} :
    (id, v) ∈ rule.elements items ↔ v ∈ items ∧ rule.identityOf v = some id := by
  simp [elements]

theorem find?_of_not_mem_sortKeys {id : String} {xs ys : List Node}
    (h : id ∉ Keyed.sortKeys (rule.identities xs ++ rule.identities ys)) :
    rule.find? id xs = none ∧ rule.find? id ys = none := by
  rwa [Keyed.mem_sortKeys, List.mem_append, not_or, ← find?_isSome_iff, ← find?_isSome_iff,
    Option.not_isSome_iff_eq_none, Option.not_isSome_iff_eq_none] at h

theorem sorted_of_index {items : List Node} {map : List (String × Node)}
    (h : rule.index items = some map) : Keyed.Sorted map := by
  induction items generalizing map with
  | nil =>
    cases h
    exact List.Pairwise.nil
  | cons item rest ih =>
    obtain ⟨id, tail, _, htail, _, rfl⟩ := (index_cons_eq_some_iff).mp h
    exact (ih htail).insert id item

theorem find?_of_index {items : List Node} {map : List (String × Node)}
    (h : rule.index items = some map) (id : String) :
    Keyed.find? id map = rule.find? id items := by
  induction items generalizing map with
  | nil =>
    cases h
    rfl
  | cons item rest ih =>
    obtain ⟨own, tail, hown, htail, _, rfl⟩ := (index_cons_eq_some_iff).mp h
    by_cases he : id = own
    · subst id
      rw [Keyed.find?_insert_self, find?_cons_of_eq hown]
    · rw [Keyed.find?_insert_of_ne he, ih htail, find?_cons_of_ne (by simp [hown, Ne.symm he])]

theorem index_isSome_iff {items : List Node} :
    (rule.index items).isSome = true ↔
      (∀ item ∈ items, (rule.identityOf item).isSome = true) ∧ (rule.identities items).Nodup := by
  induction items with
  | nil => simp [index, identities]
  | cons item rest ih =>
    have hsome : (rule.index (item :: rest)).isSome = true ↔ ∃ id, rule.identityOf item = some id ∧
        (rule.index rest).isSome = true ∧ id ∉ rule.identities rest := by
      constructor
      · intro h
        obtain ⟨map, hmap⟩ := Option.isSome_iff_exists.mp h
        obtain ⟨id, tail, hid, htail, hc, _⟩ := (index_cons_eq_some_iff).mp hmap
        refine ⟨id, hid, by simp [htail], ?_⟩
        rw [← find?_isSome_iff, ← find?_of_index htail]
        simpa [Keyed.contains] using hc
      · rintro ⟨id, hid, hrest, hnew⟩
        obtain ⟨tail, htail⟩ := Option.isSome_iff_exists.mp hrest
        apply Option.isSome_iff_exists.mpr
        refine ⟨_, (index_cons_eq_some_iff).mpr ⟨id, tail, hid, htail, ?_, rfl⟩⟩
        rw [← find?_isSome_iff, ← find?_of_index htail] at hnew
        simpa [Keyed.contains] using hnew
    rw [hsome, ih, List.forall_mem_cons]
    cases hid : rule.identityOf item with
    | none => simp
    | some id =>
      rw [identities_cons hid, List.nodup_cons]
      simp only [Option.some.injEq, exists_eq_left', Option.isSome_some, true_and]
      tauto

theorem nodup_elements {items : List Node} (h : (rule.index items).isSome = true) :
    ((rule.elements items).map Prod.fst).Nodup := by
  rw [map_fst_elements]
  exact ((index_isSome_iff).mp h).2

theorem map_snd_elements {items : List Node} (h : (rule.index items).isSome = true) :
    (rule.elements items).map Prod.snd = items := by
  have hall := ((index_isSome_iff).mp h).1
  clear h
  induction items with
  | nil => rfl
  | cons item rest ih =>
    obtain ⟨hitem, hrest⟩ := List.forall_mem_cons.mp hall
    obtain ⟨id, hid⟩ := Option.isSome_iff_exists.mp hitem
    rw [elements_cons hid, List.map_cons, ih hrest]

theorem length_elements {items : List Node} (h : (rule.index items).isSome = true) :
    (rule.elements items).length = items.length := by
  rw [← List.length_map, map_snd_elements h]

theorem length_identities {items : List Node} (h : (rule.index items).isSome = true) :
    (rule.identities items).length = items.length := by
  rw [← map_fst_elements, List.length_map, length_elements h]

theorem find?_eq_some_iff {id : String} {items : List Node} {v : Node}
    (h : (rule.index items).isSome = true) :
    rule.find? id items = some v ↔ v ∈ items ∧ rule.identityOf v = some id := by
  rw [← find?_elements, ← mem_elements]
  exact ⟨Keyed.mem_of_find?, Keyed.find?_of_mem (nodup_elements h)⟩

theorem perm_elements_of_index {items : List Node} {map : List (String × Node)}
    (h : rule.index items = some map) : map.Perm (rule.elements items) := by
  have hsome : (rule.index items).isSome = true := Option.isSome_of_eq_some h
  have hmap : map.Nodup := (sorted_of_index h).nodup.of_map
  apply (List.perm_ext_iff_of_nodup hmap (nodup_elements hsome).of_map).mpr
  rintro ⟨id, v⟩
  rw [mem_elements, ← find?_eq_some_iff hsome, ← find?_of_index h]
  exact ⟨Keyed.find?_of_mem (sorted_of_index h).nodup, Keyed.mem_of_find?⟩

theorem unionKeys_of_index {items items' : List Node} {map map' : List (String × Node)}
    (h : rule.index items = some map) (h' : rule.index items' = some map') :
    Keyed.unionKeys map map' =
      Keyed.sortKeys (rule.identities items ++ rule.identities items') := by
  refine Keyed.sortKeys_congr fun id => ?_
  have hkeys := ((perm_elements_of_index h).map Prod.fst).append
    ((perm_elements_of_index h').map Prod.fst)
  rw [hkeys.mem_iff, map_fst_elements, map_fst_elements]

end ManifestDiff.IdentityRule
