import ManifestDiff.Proofs.Diff.Silence
/-!
# Nothing is lost

The events of a comparison determine the new value, up to equivalence, from the old one. The events
below one segment are those of its piece, so the stream falls apart into its pieces again; and each
piece tells what stands there on the new side.
-/
namespace ManifestDiff

namespace Event

/-- Events of one kind with the same paths, labels and flags and with equal values. -/
def equal : Event → Event → Bool
  | .objectRemoved k, .objectRemoved l | .objectAdded k, .objectAdded l
  | .objectHeader k, .objectHeader l => k == l
  | .sectionHeader p, .sectionHeader q | .nested p, .nested q => p == q
  | .unchanged p v, .unchanged q w | .added p v, .added q w | .removed p v, .removed q w =>
    p == q && v.equal w
  | .modified p k v w, .modified q l v' w' => p == q && k == l && v.equal v' && w.equal w'
  | .structuralAddition p id v t, .structuralAddition q id' w t'
  | .structuralRemoval p id v t, .structuralRemoval q id' w t' =>
    p == q && id == id' && v.equal w && t == t'
  | _, _ => false

theorem path?_eq_of_equal {e f : Event} (h : e.equal f = true) : e.path? = f.path? := by
  cases e <;> cases f <;> simp_all [equal, path?]

end Event

namespace IdentityRule

private abbrev Same (xs ys : List Event) : Prop :=
  List.Forall₂ (fun e f => e.equal f = true) xs ys

/-- The events of a comparison with the old value tell what the new value is. -/
private def Determines (rule : IdentityRule) (a : Node) : Prop :=
  ∀ path b b', b.WellFormed → b'.WellFormed → Same (rule.diff path a b) (rule.diff path a b') →
    rule.equivalent b b' = true

variable {rule : IdentityRule}

private theorem same_filter (path : Path) {xs ys : List Event} (h : Same xs ys) :
    Same (xs.filter (Event.isUnder path)) (ys.filter (Event.isUnder path)) := by
  apply List.rel_filter _ h
  intro e f he
  simp only [Event.isUnder, Event.path?_eq_of_equal he]

/-- The events below a segment are those of its piece, also when there is nothing to compare. -/
theorem filter_diff {path : Path} {a b : Node} {segments : List Segment}
    (h : rule.equivalent a b = false) (hs : rule.segments? a b = some segments)
    {segment : Segment}
    (hnone : segment ∉ segments → rule.child? segment a = none ∧ rule.child? segment b = none) :
    (rule.diff path a b).filter (Event.isUnder (path.child segment)) =
      rule.pieceEvents path (lengthsDiffer a b) segment (rule.child? segment a)
        (rule.child? segment b) := by
  rw [diff_of_pieces h hs]
  refine (Event.filter_flatMap_isUnder Function.injective_id (segments?_nodup hs)
    (fun segment _ => pieceEvents_below path _ segment _ _) segment).trans ?_
  by_cases hm : segment ∈ segments
  · rw [if_pos hm]
  · rw [if_neg hm, (hnone hm).1, (hnone hm).2]
    rfl

private theorem equal_of_same_addition {path : Path} {t t' : Bool} {segment : Segment} {v w : Node}
    (h : Same [.addition path t segment v] [.addition path t' segment w]) : v.equal w = true := by
  have he := (List.forall₂_cons.mp h).1
  cases segment <;> simp_all [Event.addition, Event.equal]

private theorem not_same_removal {path : Path} {t t' : Bool} {segment : Segment} {v w u : Node} :
    ¬Same [.removal path t segment u] (rule.pieceEvents path t' segment (some v) (some w)) ∧
      ¬Same (rule.pieceEvents path t' segment (some v) (some w)) [.removal path t segment u] := by
  rw [pieceEvents]
  cases rule.equivalent v w <;> cases segment <;> simp [Event.removal, Event.equal]

private theorem rel_of_piece {path : Path} {t t' : Bool} {segment : Segment}
    {x y z : Option Node} (hx : ∀ v, x = some v → v.WellFormed)
    (hy : ∀ v, y = some v → v.WellFormed) (hz : ∀ v, z = some v → v.WellFormed)
    (ih : ∀ w, x = some w → rule.Determines w)
    (h : Same (rule.pieceEvents path t segment x y) (rule.pieceEvents path t' segment x z)) :
    Option.Rel (fun v v' => rule.equivalent v v' = true) y z := by
  cases y with
  | none =>
    cases z with
    | none => exact .none
    | some v' =>
      cases x with
      | none => simp [pieceEvents] at h
      | some w => exact absurd h not_same_removal.1
  | some v =>
    cases z with
    | none =>
      cases x with
      | none => simp [pieceEvents] at h
      | some w => exact absurd h not_same_removal.2
    | some v' =>
      apply Option.Rel.some
      cases x with
      | none => exact equivalent_of_equal (equal_of_same_addition h)
      | some w =>
        rw [pieceEvents, pieceEvents] at h
        cases hv : rule.equivalent w v <;> cases hv' : rule.equivalent w v' <;>
          simp only [hv, hv', if_true, Bool.false_eq_true, if_false] at h
        case false.false =>
          exact ih w rfl _ v v' (hy v rfl) (hz v' rfl) (List.forall₂_cons.mp h).2
        case false.true => simp at h
        case true.false => simp at h
        case true.true =>
          have hvw := equivalent_symm (hx w rfl) (hy v rfl) hv
          exact equivalent_trans (hy v rfl) (hx w rfl) (hz v' rfl) hvw hv'

private theorem map_path?_of_same {xs ys : List Event} (h : Same xs ys) :
    xs.map Event.path? = ys.map Event.path? := by
  induction h with
  | nil => rfl
  | cons he _ ih => rw [List.map_cons, List.map_cons, Event.path?_eq_of_equal he, ih]

private theorem exists_segment {path : Path} {a b : Node} {segments : List Segment}
    (h : rule.equivalent a b = false) (hs : rule.segments? a b = some segments)
    {place : Option Path} (hp : place ∈ (rule.diff path a b).map Event.path?) :
    ∃ segment ∈ segments, ∃ rest, place = some (path.child segment ++ rest) := by
  obtain ⟨e, he, rfl⟩ := List.mem_map.mp hp
  rw [diff_of_pieces h hs] at he
  obtain ⟨segment, hm, he⟩ := List.mem_flatMap.mp he
  exact ⟨segment, hm, (Event.isUnder_iff).mp (pieceEvents_below path _ segment _ _ e he)⟩

private theorem replaced_not_pieces {path : Path} {a b x y : Node} {segments : List Segment}
    (h : rule.equivalent a b = false) (hs : rule.segments? a b = some segments) :
    [Event.modified path none x y].map Event.path? ≠ (rule.diff path a b).map Event.path? := by
  intro hpaths
  have hp : some path ∈ (rule.diff path a b).map Event.path? := by
    rw [← hpaths]
    exact List.mem_singleton_self _
  obtain ⟨segment, _, rest, hplace⟩ := exists_segment h hs hp
  have hlen := congrArg List.length (Option.some.inj hplace)
  simp [Path.child] at hlen

section

variable {path : Path} {a b b' : Node} {segments segments' : List Segment}
  (ha : a.WellFormed) (hb : b.WellFormed) (hb' : b'.WellFormed)
  (h : rule.equivalent a b = false) (h' : rule.equivalent a b' = false)
  (hs : rule.segments? a b = some segments) (hs' : rule.segments? a b' = some segments')
  (hsame : Same (rule.diff path a b) (rule.diff path a b'))

include ha hb h h' hs hs' hsame

private theorem exists_common_segment : ∃ segment ∈ segments, segment ∈ segments' := by
  have hne : rule.diff path a b ≠ [] := by
    rw [ne_eq, diff_eq_nil_iff ha hb, h]
    exact Bool.false_ne_true
  obtain ⟨e, he⟩ := List.exists_mem_of_ne_nil _ hne
  have hp := List.mem_map_of_mem (f := Event.path?) he
  have hp' := hp
  rw [map_path?_of_same hsame] at hp'
  obtain ⟨segment, hm, rest, hplace⟩ := exists_segment h hs hp
  obtain ⟨segment', hm', rest', hplace'⟩ := exists_segment h' hs' hp'
  have hsegment : segment = segment' := Event.segment_eq (Option.some.inj (hplace.symm.trans hplace'))
  exact ⟨segment, hm, hsegment ▸ hm'⟩

include hb'

private theorem rel_of_same (segment : Segment)
    (ih : ∀ w, rule.child? segment a = some w → rule.Determines w)
    (hnone : segment ∉ segments → rule.child? segment a = none ∧ rule.child? segment b = none)
    (hnone' : segment ∉ segments' →
      rule.child? segment a = none ∧ rule.child? segment b' = none) :
    Option.Rel (fun v v' => rule.equivalent v v' = true) (rule.child? segment b)
      (rule.child? segment b') := by
  have hpiece := same_filter (path.child segment) hsame
  rw [filter_diff h hs hnone, filter_diff h' hs' hnone'] at hpiece
  apply rel_of_piece _ _ _ ih hpiece
  · exact fun w => wellFormed_of_child? ha
  · exact fun v => wellFormed_of_child? hb
  · exact fun v' => wellFormed_of_child? hb'

/-- The same segments are visited for both new values, so the kind of the comparison is the same,
and the new values agree piece by piece. -/
private theorem equivalent_of_same_pieces
    (ih : ∀ segment w, rule.child? segment a = some w → rule.Determines w) :
    rule.equivalent b b' = true := by
  have hrel (segment : Segment) := rel_of_same ha hb hb' h h' hs hs' hsame segment (ih segment)
  obtain ⟨segment, hm, hm'⟩ := exists_common_segment ha hb h h' hs hs' hsame
  cases compared_of_segments? hs with
  | mappings xs ys =>
    cases compared_of_segments? hs' with
    | mappings _ zs =>
      rw [equivalent_mapping_iff ((Node.wellFormed_mapping_iff).mp hb).1
        ((Node.wellFormed_mapping_iff).mp hb').1]
      intro k
      apply hrel (.key k)
      · exact fun hk => Keyed.find?_of_not_mem_unionKeys (mt List.mem_map_of_mem hk)
      · exact fun hk => Keyed.find?_of_not_mem_unionKeys (mt List.mem_map_of_mem hk)
  | @identities xs ys hxy =>
    obtain ⟨hx, hy⟩ := (matchesByIdentity_iff).mp hxy
    cases compared_of_segments? hs' with
    | @identities _ zs hxz =>
      obtain ⟨_, hz⟩ := (matchesByIdentity_iff).mp hxz
      rw [equivalent_matched_iff ((matchesByIdentity_iff).mpr ⟨hy, hz⟩)]
      intro id
      rw [← child?_matchable hy, ← child?_matchable hz]
      apply hrel (.identity rule.label id)
      · rw [child?_matchable hx, child?_matchable hy]
        exact fun hid => find?_of_not_mem_sortKeys (mt List.mem_map_of_mem hid)
      · rw [child?_matchable hx, child?_matchable hz]
        exact fun hid => find?_of_not_mem_sortKeys (mt List.mem_map_of_mem hid)
    | positions =>
      -- an identity is no position, so the two comparisons have no segment in common
      obtain ⟨_, _, rfl⟩ := List.mem_map.mp hm
      simp at hm'
  | @positions xs ys _ hy =>
    cases compared_of_segments? hs' with
    | identities =>
      obtain ⟨_, _, rfl⟩ := List.mem_map.mp hm
      simp at hm'
    | @positions _ zs _ hz =>
      -- the new lists may still be matched by identity, which the old one kept from happening
      apply equivalent_of_positions hb hb'
      intro i
      have habsent (items : List Node) (hlen : xs.length = items.length)
          (hi : Segment.index i ∉ (List.range xs.length).map .index) :
          xs[i]? = none ∧ items[i]? = none := by
        have hle : xs.length ≤ i := by simpa using hi
        exact ⟨List.getElem?_eq_none hle, List.getElem?_eq_none (hlen ▸ hle)⟩
      exact hrel (.index i) (habsent ys hy) (habsent zs hz)

end

private theorem determines_of_wellFormed {a : Node} (ha : a.WellFormed) : rule.Determines a := by
  induction a using induct_child rule with
  | step a ih =>
    intro path b b' hb hb' hsame
    cases h : rule.equivalent a b with
    | true =>
      rw [diff_of_equivalent h] at hsame
      have h' := (diff_eq_nil_iff ha hb').mp (List.forall₂_nil_left_iff.mp hsame)
      exact equivalent_trans hb ha hb' (equivalent_symm ha hb h) h'
    | false =>
      cases h' : rule.equivalent a b' with
      | true =>
        rw [diff_of_equivalent h'] at hsame
        have hab := (diff_eq_nil_iff ha hb).mp (List.forall₂_nil_right_iff.mp hsame)
        exact absurd hab (Bool.eq_false_iff.mp h)
      | false =>
        have hpaths := map_path?_of_same hsame
        cases hs : rule.segments? a b with
        | none =>
          rw [diff_of_replaced h hs] at hsame hpaths
          cases hs' : rule.segments? a b' with
          | none =>
            rw [diff_of_replaced h' hs'] at hsame
            have he := (List.forall₂_cons.mp hsame).1
            simp only [Event.equal, Bool.and_eq_true] at he
            exact equivalent_of_equal he.2
          | some segments' => exact absurd hpaths (replaced_not_pieces h' hs')
        | some segments =>
          cases hs' : rule.segments? a b' with
          | none =>
            rw [diff_of_replaced h' hs'] at hpaths
            exact absurd hpaths.symm (replaced_not_pieces h hs)
          | some segments' =>
            apply equivalent_of_same_pieces ha hb hb' h h' hs hs' hsame
            exact fun segment w hw => ih segment w hw (wellFormed_of_child? ha hw)

end IdentityRule

/-- From the old value and the events of a comparison, the new value is known up to equivalence. -/
theorem equivalent_of_equal_diffs (rule : IdentityRule) (path : Path) (a b b' : WellFormedNode)
    (h : List.Forall₂ (fun e f => e.equal f = true) (rule.diff path a b) (rule.diff path a b')) :
    rule.equivalent b b' = true :=
  IdentityRule.determines_of_wellFormed a.2 path b b' b.2 b'.2 h

private def containers (images : List (String × String)) : WellFormedNode :=
  ⟨.ofJson (.array (images.map fun (name, image) =>
    .object [("name", .string name), ("image", .string image)])), Node.ofJson_wellFormed _⟩

/-- An update of one container reads the same whether or not it moves the container. -/
theorem equivalent_moved_container :
    List.Forall₂ (fun e f => e.equal f = true)
        (IdentityRule.diff {} .root (containers [("app", "v1"), ("log", "v1")])
          (containers [("app", "v2"), ("log", "v1")]))
        (IdentityRule.diff {} .root (containers [("app", "v1"), ("log", "v1")])
          (containers [("log", "v1"), ("app", "v2")])) ∧
      IdentityRule.equivalent {} (containers [("app", "v2"), ("log", "v1")])
        (containers [("log", "v1"), ("app", "v2")]) = true := by
  have h : List.Forall₂ (fun e f => e.equal f = true)
      (IdentityRule.diff {} .root (containers [("app", "v1"), ("log", "v1")])
        (containers [("app", "v2"), ("log", "v1")]))
      (IdentityRule.diff {} .root (containers [("app", "v1"), ("log", "v1")])
        (containers [("log", "v1"), ("app", "v2")])) := by decide
  exact ⟨h, equivalent_of_equal_diffs {} .root _ _ _ h⟩

end ManifestDiff
