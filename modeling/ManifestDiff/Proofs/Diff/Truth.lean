import ManifestDiff.Proofs.Diff.Pieces
/-!
# Events tell the truth

An event names a place by the segments that lead there, in the old and in the new value at once.
What the event says holds at that place: the pair of values that the segments lead to is the one
that the event is about.
-/
namespace ManifestDiff

namespace IdentityRule

variable (rule : IdentityRule)

/-- The value is the one element of the list that has this identity. -/
def IsOnly (id : String) (items : List Node) (v : Node) : Prop :=
  items.filter (fun item => rule.identityOf item == some id) = [v]

inductive Below : Segment → Node → Node → Node → Node → Prop
  | key {k : String} {xs ys : List (String × Node)} {v w : Node}
    (hv : Keyed.find? k xs = some v) (hw : Keyed.find? k ys = some w) :
    Below (.key k) (.mapping xs) (.mapping ys) v w
  | index {i : Nat} {xs ys : List Node} {v w : Node} (hlen : xs.length = ys.length)
    (hv : xs[i]? = some v) (hw : ys[i]? = some w) : Below (.index i) (.list xs) (.list ys) v w
  | identity {id : String} {xs ys : List Node} {v w : Node} (hx : rule.isMatchable xs = true)
    (hy : rule.isMatchable ys = true) (hv : rule.IsOnly id xs v) (hw : rule.IsOnly id ys w) :
    Below (.identity rule.label id) (.list xs) (.list ys) v w

/-- The segments lead, one after another, from two values to two values inside them. -/
inductive Reaches : Path → Node → Node → Node → Node → Prop
  | here (a b : Node) : Reaches [] a b a b
  | cons {segment : Segment} {rest : Path} {a b v w v' w' : Node}
    (h : rule.Below segment a b v w) (hrest : Reaches rest v w v' w') :
    Reaches (segment :: rest) a b v' w'

def Indivisible : Node → Node → Prop
  | .mapping _, .mapping _ => False
  | .list xs, .list ys =>
    xs.length ≠ ys.length ∧ ¬(rule.isMatchable xs = true ∧ rule.isMatchable ys = true)
  | _, _ => True

/-- What an event of the comparison of two values says about them. There is nothing that the other
events could say, so they are not among the true ones. -/
def Truthful (path : Path) (a b : Node) : Event → Prop
  | .added place value => ∃ s k xs ys, place = path ++ s ++ [.key k] ∧
      rule.Reaches s a b (.mapping xs) (.mapping ys) ∧
      Keyed.find? k xs = none ∧ Keyed.find? k ys = some value
  | .removed place value => ∃ s k xs ys, place = path ++ s ++ [.key k] ∧
      rule.Reaches s a b (.mapping xs) (.mapping ys) ∧
      Keyed.find? k xs = some value ∧ Keyed.find? k ys = none
  | .nested place => ∃ s v w, place = path ++ s ∧ s ≠ [] ∧
      rule.Reaches s a b v w ∧ rule.equivalent v w = false
  | .modified place none old new => ∃ s, place = path ++ s ∧
      rule.Reaches s a b old new ∧ rule.equivalent old new = false ∧ rule.Indivisible old new
  | .structuralAddition place id value tainted => ∃ s xs ys,
      place = path ++ s ++ [.identity rule.label id] ∧
      rule.Reaches s a b (.list xs) (.list ys) ∧
      rule.isMatchable xs = true ∧ rule.isMatchable ys = true ∧
      id ∉ rule.identities xs ∧ rule.IsOnly id ys value ∧ tainted = (xs.length != ys.length)
  | .structuralRemoval place id value tainted => ∃ s xs ys,
      place = path ++ s ++ [.identity rule.label id] ∧
      rule.Reaches s a b (.list xs) (.list ys) ∧
      rule.isMatchable xs = true ∧ rule.isMatchable ys = true ∧
      rule.IsOnly id xs value ∧ id ∉ rule.identities ys ∧ tainted = (xs.length != ys.length)
  | _ => False

variable {rule}

private theorem isOnly_of_find? {id : String} {items : List Node} {v : Node}
    (hm : rule.isMatchable items = true) (h : rule.find? id items = some v) :
    rule.IsOnly id items v := by
  have hnodup := ((index_isSome_iff).mp (Bool.and_eq_true_iff.mp hm).2).2
  clear hm
  rw [IsOnly]
  -- the first element with the identity is the only one, since no identity occurs again behind it
  induction items with
  | nil => cases h
  | cons item rest ih =>
    by_cases hid : rule.identityOf item = some id
    · rw [find?_cons_of_eq hid] at h
      have hv : item = v := Option.some.inj h
      rw [identities_cons hid, List.nodup_cons] at hnodup
      rw [List.filter_cons_of_pos (by simp [hid]), hv, List.filter_eq_nil_iff.mpr]
      intro other hother
      have hnone : rule.find? id rest = none := by
        rw [← Option.not_isSome_iff_eq_none, find?_isSome_iff]
        exact hnodup.1
      exact List.find?_eq_none.mp hnone other hother
    · have hnodup : (rule.identities rest).Nodup := by
        cases hown : rule.identityOf item <;> simp_all [identities]
      rw [List.filter_cons_of_neg (by simp [hid])]
      rw [find?_cons_of_ne hid] at h
      exact ih h hnodup

private theorem not_mem_identities {id : String} {items : List Node}
    (h : rule.find? id items = none) : id ∉ rule.identities items := by
  rw [← find?_isSome_iff, h]
  exact Bool.false_ne_true

variable {path : Path} {a b v w : Node} {segments : List Segment} {segment : Segment}

private theorem below_of_child? (hs : rule.segments? a b = some segments)
    (hm : segment ∈ segments) (hv : rule.child? segment a = some v)
    (hw : rule.child? segment b = some w) : rule.Below segment a b v w := by
  cases compared_of_segments? hs with
  | mappings xs ys =>
    obtain ⟨k, _, rfl⟩ := List.mem_map.mp hm
    exact .key hv hw
  | @identities xs ys hxy =>
    obtain ⟨id, _, rfl⟩ := List.mem_map.mp hm
    obtain ⟨hx, hy⟩ := (matchesByIdentity_iff).mp hxy
    rw [child?_matchable hx] at hv
    rw [child?_matchable hy] at hw
    exact .identity hx hy (isOnly_of_find? hx hv) (isOnly_of_find? hy hw)
  | @positions xs ys _ hlen =>
    obtain ⟨i, _, rfl⟩ := List.mem_map.mp hm
    exact .index hlen hv hw

private theorem truthful_addition (hs : rule.segments? a b = some segments)
    (hm : segment ∈ segments) (hv : rule.child? segment a = none)
    (hw : rule.child? segment b = some w) :
    rule.Truthful path a b (.addition path (lengthsDiffer a b) segment w) := by
  cases compared_of_segments? hs with
  | mappings xs ys =>
    obtain ⟨k, _, rfl⟩ := List.mem_map.mp hm
    exact ⟨[], k, xs, ys, by simp [Path.child], .here _ _, hv, hw⟩
  | @identities xs ys hxy =>
    obtain ⟨id, _, rfl⟩ := List.mem_map.mp hm
    obtain ⟨hx, hy⟩ := (matchesByIdentity_iff).mp hxy
    rw [child?_matchable hx] at hv
    rw [child?_matchable hy] at hw
    exact ⟨[], xs, ys, by simp [Path.child], .here _ _, hx, hy, not_mem_identities hv,
      isOnly_of_find? hy hw, rfl⟩
  | @positions xs ys _ hlen =>
    -- a position of the one list is a position of the other
    obtain ⟨i, hi, rfl⟩ := List.mem_map.mp hm
    rw [child?, List.getElem?_eq_none_iff] at hv
    exact absurd (List.mem_range.mp hi) (Nat.not_lt.mpr hv)

private theorem truthful_removal (hs : rule.segments? a b = some segments)
    (hm : segment ∈ segments) (hv : rule.child? segment a = some v)
    (hw : rule.child? segment b = none) :
    rule.Truthful path a b (.removal path (lengthsDiffer a b) segment v) := by
  cases compared_of_segments? hs with
  | mappings xs ys =>
    obtain ⟨k, _, rfl⟩ := List.mem_map.mp hm
    exact ⟨[], k, xs, ys, by simp [Path.child], .here _ _, hv, hw⟩
  | @identities xs ys hxy =>
    obtain ⟨id, _, rfl⟩ := List.mem_map.mp hm
    obtain ⟨hx, hy⟩ := (matchesByIdentity_iff).mp hxy
    rw [child?_matchable hx] at hv
    rw [child?_matchable hy] at hw
    exact ⟨[], xs, ys, by simp [Path.child], .here _ _, hx, hy, isOnly_of_find? hx hv,
      not_mem_identities hw, rfl⟩
  | @positions xs ys _ hlen =>
    obtain ⟨i, hi, rfl⟩ := List.mem_map.mp hm
    rw [child?, List.getElem?_eq_none_iff, ← hlen] at hw
    exact absurd (List.mem_range.mp hi) (Nat.not_lt.mpr hw)

private theorem indivisible_of_segments? (hs : rule.segments? a b = none) :
    rule.Indivisible a b := by
  cases a with
  | mapping xs => cases b <;> simp_all [segments?, Indivisible]
  | list xs =>
    cases b with
    | list ys =>
      rw [segments?] at hs
      split at hs
      · cases hs
      next hxy =>
        split at hs
        · cases hs
        next hlen => exact ⟨hlen, fun hboth => hxy ((matchesByIdentity_iff).mpr hboth)⟩
    | mapping ys => trivial
    | scalar t => trivial
  | scalar s => cases b <;> trivial

private theorem path_child_append (path s : Path) (segment : Segment) :
    path.child segment ++ s = path ++ segment :: s := by
  rw [Path.child, List.append_assoc, List.singleton_append]

private theorem truthful_of_below (h : rule.Below segment a b v w) {e : Event}
    (he : rule.Truthful (path.child segment) v w e) : rule.Truthful path a b e := by
  match e with
  | .added place value | .removed place value =>
    obtain ⟨s, k, xs, ys, rfl, hreach, hrest⟩ := he
    exact ⟨segment :: s, k, xs, ys, by rw [path_child_append], .cons h hreach, hrest⟩
  | .nested place =>
    obtain ⟨s, v', w', rfl, _, hreach, hrest⟩ := he
    exact ⟨segment :: s, v', w', path_child_append _ _ _, List.cons_ne_nil _ _,
      .cons h hreach, hrest⟩
  | .modified place none old new =>
    obtain ⟨s, rfl, hreach, hrest⟩ := he
    exact ⟨segment :: s, path_child_append _ _ _, .cons h hreach, hrest⟩
  | .structuralAddition place id value tainted | .structuralRemoval place id value tainted =>
    obtain ⟨s, xs, ys, rfl, hreach, hrest⟩ := he
    exact ⟨segment :: s, xs, ys, by rw [path_child_append], .cons h hreach, hrest⟩

private theorem truthful_pieceEvents (hs : rule.segments? a b = some segments)
    (hm : segment ∈ segments)
    (ih : ∀ v w, rule.child? segment a = some v → rule.child? segment b = some w →
      ∀ e ∈ rule.diff (path.child segment) v w, rule.Truthful (path.child segment) v w e) :
    ∀ e ∈ rule.pieceEvents path (lengthsDiffer a b) segment (rule.child? segment a)
      (rule.child? segment b), rule.Truthful path a b e := by
  apply pieceEvents_cases (P := fun events => ∀ e ∈ events, rule.Truthful path a b e)
  case silent => exact List.forall_mem_nil _
  case addition =>
    intro w hv hw
    rw [List.forall_mem_singleton]
    exact truthful_addition hs hm hv hw
  case removal =>
    intro v hv hw
    rw [List.forall_mem_singleton]
    exact truthful_removal hs hm hv hw
  case nested =>
    intro v w hv hw hvw
    have hbelow := below_of_child? hs hm hv hw
    rw [List.forall_mem_cons]
    constructor
    · exact ⟨[segment], v, w, rfl, List.cons_ne_nil _ _, .cons hbelow (.here v w), hvw⟩
    · intro e he
      exact truthful_of_below hbelow (ih v w hv hw e he)

end IdentityRule

/-- Every event of a comparison is true of the place that it names, and a value is replaced as a
whole only if there is no way to compare it piece by piece. -/
theorem diff_truthful (rule : IdentityRule) (path : Path) (a b : Node) :
    ∀ e ∈ rule.diff path a b, rule.Truthful path a b e := by
  refine IdentityRule.diff_induct (P := fun path a b events =>
    ∀ e ∈ events, rule.Truthful path a b e) ?silent ?replaced ?pieces path a b
  case silent =>
    intro path a b _
    exact List.forall_mem_nil _
  case replaced =>
    intro path a b h hs
    rw [List.forall_mem_singleton]
    exact ⟨[], (List.append_nil _).symm, .here _ _, h, IdentityRule.indivisible_of_segments? hs⟩
  case pieces =>
    intro path a b segments _ hs ih
    rw [List.forall_mem_flatMap]
    intro segment hm
    exact IdentityRule.truthful_pieceEvents hs hm (ih segment)

private def container (name image : String) : Node :=
  .mapping [("image", .string image), ("name", .string name)]

/-- A container that is added to a list of another length is named by its identity, wherever in the
list it stands. -/
theorem added_container_truthful :
    .structuralAddition [.identity "container" "log"] "log" (container "log" "v1") true ∈
        IdentityRule.diff {} .root (.list [container "app" "v1"])
          (.list [container "log" "v1", container "app" "v1"]) ∧
      IdentityRule.Truthful {} .root (.list [container "app" "v1"])
        (.list [container "log" "v1", container "app" "v1"])
        (.structuralAddition [.identity "container" "log"] "log" (container "log" "v1") true) := by
  have hdiff : IdentityRule.diff {} .root (.list [container "app" "v1"])
      (.list [container "log" "v1", container "app" "v1"]) =
      [.structuralAddition [.identity "container" "log"] "log" (container "log" "v1") true] := rfl
  have hm : .structuralAddition [.identity "container" "log"] "log" (container "log" "v1") true ∈
      IdentityRule.diff {} .root (.list [container "app" "v1"])
        (.list [container "log" "v1", container "app" "v1"]) := by
    rw [hdiff]
    exact List.mem_singleton_self _
  exact ⟨hm, diff_truthful {} .root _ _ _ hm⟩

end ManifestDiff
