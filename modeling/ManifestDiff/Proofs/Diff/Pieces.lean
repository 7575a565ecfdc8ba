import ManifestDiff.Diff.Walk
import ManifestDiff.Proofs.Diff.Canonical
/-!
# The pieces of a comparison

Two values that are not equivalent are either replaced as a whole or compared piece by piece, along
the segments that lead to their children. Mappings, identity lists and other lists differ only in
which segments these are: the steps of a piece depend on what stands there on either side alone.
-/
namespace ManifestDiff

namespace Event

def addition (path : Path) (tainted : Bool) (segment : Segment) (value : Node) : Event :=
  match segment with
  | .identity _ id => .structuralAddition (path.child segment) id value tainted
  | _ => .added (path.child segment) value

def removal (path : Path) (tainted : Bool) (segment : Segment) (value : Node) : Event :=
  match segment with
  | .identity _ id => .structuralRemoval (path.child segment) id value tainted
  | _ => .removed (path.child segment) value

end Event

namespace IdentityRule

/-- The value one segment below a node. An element of a list is found by identity only if the list
can be matched by identity and the segment has the word of the rule. -/
def child? (rule : IdentityRule) (segment : Segment) (node : Node) : Option Node :=
  match segment, node with
  | .key k, .mapping entries => Keyed.find? k entries
  | .index i, .list items => items[i]?
  | .identity label id, .list items =>
    if label = rule.label ∧ rule.isMatchable items = true then rule.find? id items else none
  | _, _ => none

/-- The segments along which two values are compared, unless one replaces the other as a whole. -/
def segments? (rule : IdentityRule) : Node → Node → Option (List Segment)
  | .mapping xs, .mapping ys => some ((Keyed.unionKeys xs ys).map .key)
  | .list xs, .list ys =>
    if rule.matchesByIdentity xs ys then
      some ((Keyed.sortKeys (rule.identities xs ++ rule.identities ys)).map
        (.identity rule.label))
    else if xs.length = ys.length then some ((List.range xs.length).map .index)
    else none
  | _, _ => none

inductive Compared (rule : IdentityRule) : Node → Node → List Segment → Prop
  | mappings (xs ys : List (String × Node)) :
    Compared rule (.mapping xs) (.mapping ys) ((Keyed.unionKeys xs ys).map .key)
  | identities {xs ys : List Node} (h : rule.matchesByIdentity xs ys = true) :
    Compared rule (.list xs) (.list ys)
      ((Keyed.sortKeys (rule.identities xs ++ rule.identities ys)).map (.identity rule.label))
  | positions {xs ys : List Node} (h : rule.matchesByIdentity xs ys = false)
    (hlen : xs.length = ys.length) :
    Compared rule (.list xs) (.list ys) ((List.range xs.length).map .index)

inductive Child (rule : IdentityRule) : Segment → Node → Node → Prop
  | entry {k : String} {entries : List (String × Node)} {v : Node}
    (h : Keyed.find? k entries = some v) : Child rule (.key k) (.mapping entries) v
  | item {i : Nat} {items : List Node} {v : Node} (h : items[i]? = some v) :
    Child rule (.index i) (.list items) v
  | element {id : String} {items : List Node} {v : Node} (hm : rule.isMatchable items = true)
    (h : rule.find? id items = some v) : Child rule (.identity rule.label id) (.list items) v

def lengthsDiffer : Node → Node → Bool
  | .list xs, .list ys => xs.length != ys.length
  | _, _ => false

/-- The note on two lists that look like identity lists but are compared by position. -/
def fallbackSteps (rule : IdentityRule) (path : Path) : Node → Node → List Step
  | .list xs, .list ys =>
    if rule.areIdentityLists xs ys && !rule.matchesByIdentity xs ys then
      [.note (.unmatched path)]
    else []
  | _, _ => []

/-- The steps for one piece of two values, given what stands there on either side. -/
def pieceSteps (rule : IdentityRule) (path : Path) (tainted : Bool) (segment : Segment) :
    Option Node → Option Node → List Step
  | none, none => []
  | none, some w => [.event (.addition path tainted segment w)]
  | some v, none => [.event (.removal path tainted segment v)]
  | some v, some w =>
    if rule.equivalent v w then []
    else .event (.nested (path.child segment)) :: rule.walk (path.child segment) v w

def pieceEvents (rule : IdentityRule) (path : Path) (tainted : Bool) (segment : Segment) :
    Option Node → Option Node → List Event
  | none, none => []
  | none, some w => [.addition path tainted segment w]
  | some v, none => [.removal path tainted segment v]
  | some v, some w =>
    if rule.equivalent v w then []
    else .nested (path.child segment) :: rule.diff (path.child segment) v w

variable {rule : IdentityRule}

theorem compared_of_segments? {a b : Node} {segments : List Segment}
    (h : rule.segments? a b = some segments) : Compared rule a b segments := by
  cases a with
  | mapping xs =>
    cases b with
    | mapping ys =>
      cases h
      exact .mappings xs ys
    | list ys => cases h
    | scalar t => cases h
  | list xs =>
    cases b with
    | mapping ys => cases h
    | list ys =>
      rw [segments?] at h
      cases hm : rule.matchesByIdentity xs ys with
      | true =>
        rw [hm, if_pos rfl] at h
        cases h
        exact .identities hm
      | false =>
        rw [hm, if_neg Bool.false_ne_true] at h
        split at h
        next hlen =>
          cases h
          exact .positions hm hlen
        next => cases h
    | scalar t => cases h
  | scalar s => cases b <;> cases h

theorem child_of_child? {segment : Segment} {a v : Node} (h : rule.child? segment a = some v) :
    Child rule segment a v := by
  cases a with
  | mapping entries =>
    cases segment with
    | key k => exact .entry h
    | index i => cases h
    | identity label id => cases h
  | list items =>
    cases segment with
    | key k => cases h
    | index i => exact .item h
    | identity label id =>
      rw [child?] at h
      split at h
      next hlabel =>
        obtain ⟨rfl, hm⟩ := hlabel
        exact .element hm h
      next => cases h
  | scalar value => cases segment <;> cases h

theorem child?_matchable {items : List Node} (h : rule.isMatchable items = true) (id : String) :
    rule.child? (.identity rule.label id) (.list items) = rule.find? id items := by
  simp [child?, h]

theorem walkEntry_eq (path : Path) (tainted : Bool) (k : String)
    (xs : List (String × Node)) (w? : Option Node) :
    rule.walkEntry (path.child (.key k)) k xs w? =
      rule.pieceSteps path tainted (.key k) (Keyed.find? k xs) w? := by
  induction xs with
  | nil => cases w? <;> rfl
  | cons entry xs ih =>
    obtain ⟨l, v⟩ := entry
    by_cases hlk : l = k
    · subst l
      rw [Keyed.find?_cons_self, walkEntry.eq_def]
      simp only [if_true]
      cases w? <;> rfl
    · rw [Keyed.find?_cons_of_ne (Ne.symm hlk), ← ih, walkEntry.eq_def]
      simp only [if_neg hlk]

theorem walkElement_eq (path : Path) (tainted : Bool) (id : String) (xs : List Node)
    (w? : Option Node) :
    rule.walkElement (path.child (.identity rule.label id)) id tainted xs w? =
      rule.pieceSteps path tainted (.identity rule.label id) (rule.find? id xs) w? := by
  induction xs with
  | nil => cases w? <;> rfl
  | cons item xs ih =>
    by_cases hid : rule.identityOf item = some id
    · rw [find?_cons_of_eq hid, walkElement.eq_def]
      simp only [if_pos hid]
      cases w? <;> rfl
    · rw [find?_cons_of_ne hid, ← ih, walkElement.eq_def]
      simp only [if_neg hid]

private theorem walkItems_eq (path : Path) (tainted : Bool) (start : Nat) {xs ys : List Node}
    (hlen : xs.length = ys.length) :
    rule.walkItems path start xs ys = (List.range xs.length).flatMap fun i =>
      rule.pieceSteps path tainted (.index (start + i)) xs[i]? ys[i]? := by
  induction xs generalizing start ys with
  | nil =>
    have hnil : ys = [] := List.length_eq_zero_iff.mp hlen.symm
    subst ys
    rfl
  | cons v xs ih =>
    cases ys with
    | nil => simp at hlen
    | cons w ys =>
      rw [walkItems, ih (start + 1) (by simpa using hlen), List.length_cons,
        List.range_succ_eq_map, List.flatMap_cons, List.flatMap_map]
      congr 1
      simp only [List.getElem?_cons_succ, Nat.add_assoc, Nat.add_comm 1]

theorem walk_of_equivalent {path : Path} {a b : Node} (h : rule.equivalent a b = true) :
    rule.walk path a b = [] := by
  cases a <;> cases b <;> simp [walk, h]

theorem walk_of_replaced {path : Path} {a b : Node} (h : rule.equivalent a b = false)
    (hs : rule.segments? a b = none) :
    rule.walk path a b = rule.fallbackSteps path a b ++ [.event (.modified path none a b)] := by
  cases a with
  | mapping xs => cases b <;> simp_all [walk, segments?, fallbackSteps]
  | list xs =>
    cases b with
    | list ys =>
      simp only [segments?] at hs
      split at hs
      · cases hs
      · split at hs
        · cases hs
        · simp_all [walk, fallbackSteps]
    | mapping ys => simp [walk, fallbackSteps, h]
    | scalar t => simp [walk, fallbackSteps, h]
  | scalar s => cases b <;> simp [walk, fallbackSteps, h]

/-- A comparison piece by piece visits the segments in order. -/
theorem walk_of_pieces {path : Path} {a b : Node} {segments : List Segment}
    (h : rule.equivalent a b = false) (hs : rule.segments? a b = some segments) :
    rule.walk path a b = rule.fallbackSteps path a b ++ segments.flatMap fun segment =>
      rule.pieceSteps path (lengthsDiffer a b) segment (rule.child? segment a)
        (rule.child? segment b) := by
  cases compared_of_segments? hs with
  | mappings xs ys =>
    rw [walk, if_neg (by simp [h]), List.flatMap_map]
    exact List.flatMap_congr fun k _ => walkEntry_eq path _ k xs _
  | @identities xs ys hm =>
    obtain ⟨hmx, hmy⟩ := (matchesByIdentity_iff).mp hm
    rw [walk, if_neg (by simp [h]), if_pos hm, List.flatMap_map]
    simp only [fallbackSteps, hm, Bool.not_true, Bool.and_false, Bool.false_eq_true, if_false,
      List.nil_append, child?_matchable hmx, child?_matchable hmy]
    exact List.flatMap_congr fun id _ => walkElement_eq path _ id xs _
  | @positions xs ys hm hlen =>
    have hbeq : (xs.length == ys.length) = true := beq_iff_eq.mpr hlen
    rw [walk, if_neg (by simp [h]), if_neg (by simp [hm]), if_pos hbeq, List.flatMap_map,
      walkItems_eq path (lengthsDiffer (.list xs) (.list ys)) 0 hlen]
    simp only [Nat.zero_add, fallbackSteps, hm, Bool.not_false, Bool.and_true, child?]

private theorem filterMap_fallbackSteps (path : Path) (a b : Node) :
    (rule.fallbackSteps path a b).filterMap Step.event? = [] := by
  cases a with
  | mapping xs => cases b <;> rfl
  | list xs =>
    cases b with
    | list ys =>
      rw [fallbackSteps]
      split <;> rfl
    | mapping ys => rfl
    | scalar t => rfl
  | scalar s => cases b <;> rfl

private theorem filterMap_pieceSteps (path : Path) (tainted : Bool) (segment : Segment)
    (v? w? : Option Node) :
    (rule.pieceSteps path tainted segment v? w?).filterMap Step.event? =
      rule.pieceEvents path tainted segment v? w? := by
  cases v? with
  | none => cases w? <;> rfl
  | some v =>
    cases w? with
    | none => rfl
    | some w =>
      rw [pieceSteps, pieceEvents]
      split <;> rfl

theorem diff_of_equivalent {path : Path} {a b : Node} (h : rule.equivalent a b = true) :
    rule.diff path a b = [] := by
  rw [diff, walk_of_equivalent h, List.filterMap_nil]

theorem diff_of_replaced {path : Path} {a b : Node} (h : rule.equivalent a b = false)
    (hs : rule.segments? a b = none) :
    rule.diff path a b = [.modified path none a b] := by
  rw [diff, walk_of_replaced h hs, List.filterMap_append, filterMap_fallbackSteps]
  rfl

theorem diff_of_pieces {path : Path} {a b : Node} {segments : List Segment}
    (h : rule.equivalent a b = false) (hs : rule.segments? a b = some segments) :
    rule.diff path a b = segments.flatMap fun segment =>
      rule.pieceEvents path (lengthsDiffer a b) segment (rule.child? segment a)
        (rule.child? segment b) := by
  rw [diff, walk_of_pieces h hs, List.filterMap_append, filterMap_fallbackSteps,
    List.filterMap_flatMap, List.nil_append]
  exact List.flatMap_congr fun _ _ => filterMap_pieceSteps _ _ _ _ _

theorem pieceEvents_cases {P : List Event → Prop} {path : Path} {tainted : Bool}
    {segment : Segment} {v? w? : Option Node} (silent : P [])
    (addition : ∀ w, v? = none → w? = some w → P [.addition path tainted segment w])
    (removal : ∀ v, v? = some v → w? = none → P [.removal path tainted segment v])
    (nested : ∀ v w, v? = some v → w? = some w → rule.equivalent v w = false →
      P (.nested (path.child segment) :: rule.diff (path.child segment) v w)) :
    P (rule.pieceEvents path tainted segment v? w?) := by
  cases v? with
  | none =>
    cases w? with
    | none => exact silent
    | some w => exact addition w rfl rfl
  | some v =>
    cases w? with
    | none => exact removal v rfl rfl
    | some w =>
      rw [pieceEvents]
      cases h : rule.equivalent v w with
      | true => exact silent
      | false => exact nested v w rfl rfl h

theorem wellFormed_of_child? {segment : Segment} {a v : Node} (ha : a.WellFormed)
    (h : rule.child? segment a = some v) : v.WellFormed := by
  cases child_of_child? h with
  | entry hv => exact ha.of_find? hv
  | item hv => exact (Node.wellFormed_list_iff).mp ha v (List.mem_of_getElem? hv)
  | element _ hv => exact (Node.wellFormed_list_iff).mp ha v (find?_eq_some hv).1

@[elab_as_elim]
theorem induct_child (rule : IdentityRule) {P : Node → Prop}
    (step : ∀ a, (∀ segment v, rule.child? segment a = some v → P v) → P a) (a : Node) : P a := by
  induction a with
  | mapping entries ih =>
    apply step
    intro segment v h
    cases child_of_child? h with
    | entry hv => exact ih (_, v) (Keyed.mem_of_find? hv)
  | list items ih =>
    apply step
    intro segment v h
    cases child_of_child? h with
    | item hv => exact ih v (List.mem_of_getElem? hv)
    | element _ hv => exact ih v (find?_eq_some hv).1
  | scalar value =>
    apply step
    intro segment v h
    cases child_of_child? h

/-- Induction along a comparison, by the way in which the two values are compared. -/
theorem diff_induct {P : Path → Node → Node → List Event → Prop}
    (silent : ∀ path a b, rule.equivalent a b = true → P path a b [])
    (replaced : ∀ path a b, rule.equivalent a b = false → rule.segments? a b = none →
      P path a b [.modified path none a b])
    (pieces : ∀ path a b segments, rule.equivalent a b = false →
      rule.segments? a b = some segments →
      (∀ segment v w, rule.child? segment a = some v → rule.child? segment b = some w →
        P (path.child segment) v w (rule.diff (path.child segment) v w)) →
      P path a b (segments.flatMap fun segment => rule.pieceEvents path (lengthsDiffer a b) segment
        (rule.child? segment a) (rule.child? segment b)))
    (path : Path) (a b : Node) : P path a b (rule.diff path a b) := by
  induction a using induct_child rule generalizing path b with
  | step a ih =>
    cases h : rule.equivalent a b with
    | true =>
      rw [diff_of_equivalent h]
      exact silent path a b h
    | false =>
      cases hs : rule.segments? a b with
      | none =>
        rw [diff_of_replaced h hs]
        exact replaced path a b h hs
      | some segments =>
        rw [diff_of_pieces h hs]
        apply pieces path a b segments h hs
        intro segment v w hv _
        exact ih segment v hv (path.child segment) w

theorem segments?_nodup {a b : Node} {segments : List Segment}
    (hs : rule.segments? a b = some segments) : segments.Nodup := by
  cases compared_of_segments? hs with
  | mappings xs ys => exact (Keyed.sortKeys_nodup _).map fun _ _ h => Segment.key.inj h
  | identities => exact (Keyed.sortKeys_nodup _).map fun _ _ h => (Segment.identity.inj h).2
  | positions => exact List.nodup_range.map fun _ _ h => Segment.index.inj h

/-- Values that are compared piece by piece are equivalent exactly when all pieces are. -/
theorem equivalent_iff_children {a b : Node} (ha : a.WellFormed) (hb : b.WellFormed)
    {segments : List Segment} (hs : rule.segments? a b = some segments) :
    rule.equivalent a b = true ↔ ∀ segment ∈ segments,
      Option.Rel (fun v w => rule.equivalent v w = true) (rule.child? segment a)
        (rule.child? segment b) := by
  cases compared_of_segments? hs with
  | mappings xs ys =>
    rw [equivalent_mapping_iff ((Node.wellFormed_mapping_iff).mp ha).1
      ((Node.wellFormed_mapping_iff).mp hb).1, List.forall_mem_map]
    constructor
    · intro h k _
      exact h k
    · intro h k
      by_cases hk : k ∈ Keyed.unionKeys xs ys
      · exact h k hk
      · obtain ⟨hx, hy⟩ := Keyed.find?_of_not_mem_unionKeys hk
        rw [hx, hy]
        exact .none
  | @identities xs ys hm =>
    obtain ⟨hmx, hmy⟩ := (matchesByIdentity_iff).mp hm
    rw [equivalent_matched_iff hm, List.forall_mem_map]
    simp only [child?_matchable hmx, child?_matchable hmy]
    constructor
    · intro h id _
      exact h id
    · intro h id
      by_cases hid : id ∈ Keyed.sortKeys (rule.identities xs ++ rule.identities ys)
      · exact h id hid
      · obtain ⟨hx, hy⟩ := find?_of_not_mem_sortKeys hid
        rw [hx, hy]
        exact .none
  | @positions xs ys hm hlen =>
    rw [equivalent_positions_iff hm, List.forall_mem_map]
    constructor
    · intro h i _
      exact h i
    · intro h i
      by_cases hi : i ∈ List.range xs.length
      · exact h i hi
      · rw [List.mem_range, Nat.not_lt] at hi
        rw [List.getElem?_eq_none hi, List.getElem?_eq_none (hlen ▸ hi)]
        exact .none

/-- The property holds of the segments that lead to the entries of the mappings and to the elements
of the identity lists in the tree. -/
inductive Named (rule : IdentityRule) (P : Segment → Prop) : Node → Prop
  | mapping {entries : List (String × Node)} (hkeys : ∀ entry ∈ entries, P (.key entry.1))
    (h : ∀ entry ∈ entries, Named rule P entry.2) : Named rule P (.mapping entries)
  | list {items : List Node}
    (hids : rule.isMatchable items = true → ∀ id ∈ rule.identities items,
      P (.identity rule.label id))
    (h : ∀ item ∈ items, Named rule P item) : Named rule P (.list items)
  | scalar (value : Scalar) : Named rule P (.scalar value)

section Named

variable {rule : IdentityRule} {P : Segment → Prop} {a b v : Node}

theorem Named.of_child? {segment : Segment} (ha : rule.Named P a)
    (h : rule.child? segment a = some v) : rule.Named P v := by
  cases child_of_child? h with
  | entry hv =>
    cases ha with | mapping _ hentries =>
    exact hentries _ (Keyed.mem_of_find? hv)
  | item hv =>
    cases ha with | list _ hitems =>
    exact hitems v (List.mem_of_getElem? hv)
  | element _ hv =>
    cases ha with | list _ hitems =>
    exact hitems v (find?_eq_some hv).1

theorem Named.of_segments? (hindex : ∀ i, P (.index i)) (ha : rule.Named P a)
    (hb : rule.Named P b) {segments : List Segment} (hs : rule.segments? a b = some segments) :
    ∀ segment ∈ segments, P segment := by
  cases compared_of_segments? hs with
  | mappings xs ys =>
    cases ha with | mapping hx _ =>
    cases hb with | mapping hy _ =>
    rw [List.forall_mem_map]
    intro k hk
    rcases (Keyed.mem_unionKeys).mp hk with hk | hk
    · obtain ⟨entry, hm, rfl⟩ := List.mem_map.mp hk
      exact hx entry hm
    · obtain ⟨entry, hm, rfl⟩ := List.mem_map.mp hk
      exact hy entry hm
  | @identities xs ys hm =>
    obtain ⟨hmx, hmy⟩ := (matchesByIdentity_iff).mp hm
    cases ha with | list hx _ =>
    cases hb with | list hy _ =>
    rw [List.forall_mem_map]
    intro id hid
    rcases List.mem_append.mp ((Keyed.mem_sortKeys).mp hid) with hid | hid
    · exact hx hmx id hid
    · exact hy hmy id hid
  | positions =>
    rw [List.forall_mem_map]
    exact fun i _ => hindex i

end Named

end IdentityRule
end ManifestDiff
