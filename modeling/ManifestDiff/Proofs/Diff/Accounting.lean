import ManifestDiff.Proofs.Diff.Order
import Mathlib.Data.Finset.Card
/-!
# Elements of identity lists are accounted for

A list is indexed if each of its elements has a name of its own, and its index holds every element
once. When two such lists are compared, every identity has at most one event directly below them:
the element was added, was removed, or is on both sides and differs. What these events count is the
difference of the two lists, so an element can neither get lost nor be counted twice.
-/
namespace ManifestDiff

/-- The identity of the element that the place is, when it is one directly below the path. -/
def Path.element? (path place : Path) : Option String :=
  match place.dropPrefix? path with
  | some [.identity _ id] => some id
  | _ => none

theorem Path.element?_child (path : Path) (label id : String) :
    path.element? (path.child (.identity label id)) = some id := by
  have h : (path.child (.identity label id)).dropPrefix? path = some [.identity label id] :=
    List.dropPrefix?_eq_some_iff.mpr ⟨path, rfl, beq_self_eq_true path⟩
  rw [element?, h]

theorem Path.element?_below (path : Path) (s t : Segment) (rest : Path) :
    path.element? ((path.child s).child t ++ rest) = none := by
  have h : ((path.child s).child t ++ rest).dropPrefix? path = some (s :: t :: rest) :=
    List.dropPrefix?_eq_some_iff.mpr ⟨path, by simp [child], beq_self_eq_true path⟩
  rw [element?, h]
  cases s <;> rfl

namespace Event

def isStructuralAddition : Event → Bool
  | .structuralAddition .. => true
  | _ => false

def isStructuralRemoval : Event → Bool
  | .structuralRemoval .. => true
  | _ => false

def isNested : Event → Bool
  | .nested _ => true
  | _ => false

def tainted? : Event → Option Bool
  | .structuralAddition _ _ _ tainted | .structuralRemoval _ _ _ tainted => some tainted
  | _ => none

/-- The identity of the element that the event is about, when it is an element directly below the
path that was added, was removed, or differs. -/
def element? (path : Path) : Event → Option String
  | .structuralAddition place .. | .structuralRemoval place .. | .nested place =>
    path.element? place
  | _ => none

def direct (path : Path) (events : List Event) : List Event :=
  events.filter fun e => (e.element? path).isSome

end Event

namespace IdentityRule

variable (rule : IdentityRule)

def IsNamed (item : Node) (name : String) : Prop :=
  ∃ entries, item = .mapping entries ∧ Keyed.find? rule.nameKey entries = some (.string name)

/-- The map holds every element of the list once, under its name. -/
structure Indexes (items : List Node) (map : List (String × Node)) : Prop where
  sorted : Keyed.Sorted map
  length : map.length = items.length
  mem : ∀ id item, (id, item) ∈ map ↔ item ∈ items ∧ rule.IsNamed item id

/-- What the direct events of a comparison of two lists tell about their elements. -/
structure Accounts (path : Path) (xs ys : List Node) (direct : List Event) : Prop where
  once : (direct.filterMap (Event.element? path)).Nodup
  known : ∀ id ∈ direct.filterMap (Event.element? path),
    id ∈ rule.identities xs ∨ id ∈ rule.identities ys
  old : xs.length = (direct.filter Event.isStructuralRemoval).length +
    ((rule.identities xs).toFinset ∩ (rule.identities ys).toFinset).card
  new : ys.length = (direct.filter Event.isStructuralAddition).length +
    ((rule.identities xs).toFinset ∩ (rule.identities ys).toFinset).card
  balance : ((direct.filter Event.isStructuralAddition).length : Int) -
    (direct.filter Event.isStructuralRemoval).length = ys.length - xs.length
  nested : ∀ e, e ∈ direct.filter Event.isNested ↔ ∃ id v w,
    e = .nested (path.child (.identity rule.label id)) ∧ v ∈ xs ∧ rule.IsNamed v id ∧ w ∈ ys ∧
      rule.IsNamed w id ∧ rule.equivalent v w = false
  tainted : ∀ e ∈ direct, ∀ tainted, e.tainted? = some tainted →
    tainted = (xs.length != ys.length)
  untainted : (∃ e ∈ direct, e.tainted? = some false) →
    (direct.filter Event.isStructuralAddition).length =
      (direct.filter Event.isStructuralRemoval).length

def elementEvent? (path : Path) (tainted : Bool) (id : String) :
    Option Node → Option Node → Option Event
  | none, none => none
  | none, some w =>
    some (.structuralAddition (path.child (.identity rule.label id)) id w tainted)
  | some v, none =>
    some (.structuralRemoval (path.child (.identity rule.label id)) id v tainted)
  | some v, some w =>
    if rule.equivalent v w then none else some (.nested (path.child (.identity rule.label id)))

variable {rule}

theorem identityOf_eq_some_iff {item : Node} {name : String} :
    rule.identityOf item = some name ↔ rule.IsNamed item name := by
  have hstring (node : Node) : node.string? = some name ↔ node = .string name := by
    cases node with
    | scalar value => cases value <;> simp [Node.string?, Scalar.string?, Node.string]
    | mapping entries => simp [Node.string?, Node.string]
    | list items => simp [Node.string?, Node.string]
  rw [identityOf, Option.bind_eq_some_iff]
  simp only [hstring, exists_eq_right]
  cases item <;> simp [Node.get?, Node.entries?, IsNamed]

theorem index_isSome_iff_names {items : List Node} :
    (rule.index items).isSome = true ↔
      ∃ names : List String, List.Forall₂ rule.IsNamed items names ∧ names.Nodup := by
  rw [index_isSome_iff]
  constructor
  · rintro ⟨hall, hnodup⟩
    refine ⟨rule.identities items, ?_, hnodup⟩
    clear hnodup
    induction items with
    | nil => exact .nil
    | cons item rest ih =>
      obtain ⟨hitem, hrest⟩ := List.forall_mem_cons.mp hall
      obtain ⟨name, hname⟩ := Option.isSome_iff_exists.mp hitem
      rw [identities_cons hname]
      exact .cons ((identityOf_eq_some_iff).mp hname) (ih hrest)
  · rintro ⟨names, hnames, hnodup⟩
    have hids : rule.identities items = names := by
      clear hnodup
      induction hnames with
      | nil => rfl
      | cons hname _ ih => rw [identities_cons ((identityOf_eq_some_iff).mpr hname), ih]
    refine ⟨?_, hids ▸ hnodup⟩
    clear hids hnodup
    induction hnames with
    | nil => exact List.forall_mem_nil _
    | cons hname _ ih =>
      rw [List.forall_mem_cons]
      exact ⟨Option.isSome_of_eq_some ((identityOf_eq_some_iff).mpr hname), ih⟩

theorem indexes_of_index {items : List Node} {map : List (String × Node)}
    (h : rule.index items = some map) : rule.Indexes items map where
  sorted := sorted_of_index h
  length := by
    rw [(perm_elements_of_index h).length_eq, length_elements (Option.isSome_of_eq_some h)]
  mem id item := by
    rw [(perm_elements_of_index h).mem_iff, mem_elements, identityOf_eq_some_iff]

private theorem element?_elementEvent? {path : Path} {tainted : Bool} {id : String}
    {v? w? : Option Node} :
    ∀ e ∈ rule.elementEvent? path tainted id v? w?, e.element? path = some id := by
  intro e he
  cases v? <;> cases w? <;> simp only [elementEvent?, Option.mem_def, reduceCtorEq,
    Option.some.injEq, Option.ite_none_left_eq_some] at he
  case none.some | some.none =>
    subst he
    exact Path.element?_child path rule.label id
  case some.some =>
    obtain ⟨_, rfl⟩ := he
    exact Path.element?_child path rule.label id

private theorem direct_diff_child (path : Path) (segment : Segment) (v w : Node) :
    Event.direct path (rule.diff (path.child segment) v w) = [] := by
  rw [Event.direct, List.filter_eq_nil_iff]
  intro e he
  have hnone : e.element? path = none := by
    rcases place_of_mem_diff he with ⟨old, new, rfl⟩ | ⟨t, rest, hplace⟩
    · rfl
    · have hbelow := Path.element?_below path segment t rest
      cases e <;> simp_all [Event.element?, Event.path?]
  simp [hnone]

private theorem direct_pieceEvents (path : Path) (tainted : Bool) (id : String)
    (v? w? : Option Node) :
    Event.direct path (rule.pieceEvents path tainted (.identity rule.label id) v? w?) =
      (rule.elementEvent? path tainted id v? w?).toList := by
  have hplace := Path.element?_child path rule.label id
  cases v? with
  | none =>
    cases w? with
    | none => rfl
    | some w =>
      simp [pieceEvents, elementEvent?, Event.direct, Event.addition, Event.element?, hplace]
  | some v =>
    cases w? with
    | none =>
      simp [pieceEvents, elementEvent?, Event.direct, Event.removal, Event.element?, hplace]
    | some w =>
      have hchild : (rule.diff (path.child (.identity rule.label id)) v w).filter
          (fun e => (e.element? path).isSome) = [] := direct_diff_child path _ v w
      rw [pieceEvents, elementEvent?]
      split
      · rfl
      · rw [Event.direct, List.filter_cons_of_pos (by simp [Event.element?, hplace]), hchild]
        rfl

private theorem nested_elementEvent? {path : Path} (tainted : Bool) {id : String}
    {v? w? : Option Node} {e : Event} :
    (rule.elementEvent? path tainted id v? w? = some e ∧ e.isNested = true) ↔
      ∃ v w, v? = some v ∧ w? = some w ∧ rule.equivalent v w = false ∧
        e = .nested (path.child (.identity rule.label id)) := by
  constructor
  · rintro ⟨he, hnested⟩
    cases v? <;> cases w? <;> simp only [elementEvent?, reduceCtorEq, Option.some.injEq,
      Option.ite_none_left_eq_some, Bool.not_eq_true] at he
    case none.some | some.none =>
      subst he
      cases hnested
    case some.some v w => exact ⟨v, w, rfl, rfl, he.1, he.2.symm⟩
  · rintro ⟨v, w, rfl, rfl, hvw, rfl⟩
    exact ⟨if_neg (by simp [hvw]), rfl⟩

private theorem tainted?_elementEvent? {path : Path} {tainted : Bool} {id : String}
    {v? w? : Option Node} {e : Event} (he : rule.elementEvent? path tainted id v? w? = some e)
    {mark : Bool} (hmark : e.tainted? = some mark) : mark = tainted := by
  cases v? <;> cases w? <;> simp only [elementEvent?, reduceCtorEq, Option.some.injEq,
    Option.ite_none_left_eq_some] at he
  case none.some | some.none =>
    subst he
    exact (Option.some.inj hmark).symm
  case some.some =>
    obtain ⟨_, rfl⟩ := he
    cases hmark

private theorem length_filter_filterMap {f : String → Option Event} {p : Event → Bool}
    {ids : List String} (hnodup : ids.Nodup) {s : Finset String}
    (hs : ∀ id, id ∈ s ↔ id ∈ ids ∧ (f id).any p = true) :
    ((ids.filterMap f).filter p).length = s.card := by
  rw [List.filter_filterMap, List.length_filterMap_eq_countP, List.countP_eq_length_filter,
    ← List.toFinset_card_of_nodup (hnodup.filter _)]
  congr 1
  ext id
  rw [List.mem_toFinset, List.mem_filter, hs, Option.isSome_filter]

private theorem any_isStructuralAddition (path : Path) (tainted : Bool) (id : String)
    (v? w? : Option Node) :
    (rule.elementEvent? path tainted id v? w?).any Event.isStructuralAddition = true ↔
      w?.isSome = true ∧ ¬v?.isSome = true := by
  cases v? with
  | none => cases w? <;> simp [elementEvent?, Event.isStructuralAddition]
  | some v =>
    cases w? with
    | none => simp [elementEvent?, Event.isStructuralAddition]
    | some w =>
      rw [elementEvent?]
      split <;> simp [Event.isStructuralAddition]

private theorem any_isStructuralRemoval (path : Path) (tainted : Bool) (id : String)
    (v? w? : Option Node) :
    (rule.elementEvent? path tainted id v? w?).any Event.isStructuralRemoval = true ↔
      v?.isSome = true ∧ ¬w?.isSome = true := by
  cases v? with
  | none => cases w? <;> simp [elementEvent?, Event.isStructuralRemoval]
  | some v =>
    cases w? with
    | none => simp [elementEvent?, Event.isStructuralRemoval]
    | some w =>
      rw [elementEvent?]
      split <;> simp [Event.isStructuralRemoval]

section Lists

variable (path : Path) {xs ys : List Node} (hx : rule.isMatchable xs = true)
  (hy : rule.isMatchable ys = true)

private theorem length_eq_card (hx : rule.isMatchable xs = true) :
    xs.length = (rule.identities xs).toFinset.card := by
  have hindex := (Bool.and_eq_true_iff.mp hx).2
  rw [List.toFinset_card_of_nodup ((index_isSome_iff).mp hindex).2, length_identities hindex]

variable (h : rule.equivalent (.list xs) (.list ys) = false)
include hx hy h

theorem direct_diff : Event.direct path (rule.diff path (.list xs) (.list ys)) =
    (Keyed.sortKeys (rule.identities xs ++ rule.identities ys)).filterMap fun id =>
      rule.elementEvent? path (xs.length != ys.length) id (rule.find? id xs)
        (rule.find? id ys) := by
  have hs : rule.segments? (.list xs) (.list ys) =
      some ((Keyed.sortKeys (rule.identities xs ++ rule.identities ys)).map
        (.identity rule.label)) :=
    if_pos ((matchesByIdentity_iff).mpr ⟨hx, hy⟩)
  rw [diff_of_pieces h hs, List.flatMap_map, Event.direct, List.filter_flatMap,
    List.filterMap_eq_flatMap_toList]
  apply List.flatMap_congr
  intro id _
  rw [child?_matchable hx, child?_matchable hy]
  exact direct_pieceEvents path _ id _ _

theorem length_additions :
    ((Event.direct path (rule.diff path (.list xs) (.list ys))).filter
        Event.isStructuralAddition).length =
      ((rule.identities ys).toFinset \ (rule.identities xs).toFinset).card := by
  rw [direct_diff path hx hy h]
  apply length_filter_filterMap (Keyed.sortKeys_nodup _)
  intro id
  rw [any_isStructuralAddition, find?_isSome_iff, find?_isSome_iff, Keyed.mem_sortKeys,
    List.mem_append, Finset.mem_sdiff, List.mem_toFinset, List.mem_toFinset]
  tauto

theorem length_removals :
    ((Event.direct path (rule.diff path (.list xs) (.list ys))).filter
        Event.isStructuralRemoval).length =
      ((rule.identities xs).toFinset \ (rule.identities ys).toFinset).card := by
  rw [direct_diff path hx hy h]
  apply length_filter_filterMap (Keyed.sortKeys_nodup _)
  intro id
  rw [any_isStructuralRemoval, find?_isSome_iff, find?_isSome_iff, Keyed.mem_sortKeys,
    List.mem_append, Finset.mem_sdiff, List.mem_toFinset, List.mem_toFinset]
  tauto

theorem accounts_of_matched :
    rule.Accounts path xs ys (Event.direct path (rule.diff path (.list xs) (.list ys))) := by
  have hindexx := (Bool.and_eq_true_iff.mp hx).2
  have hindexy := (Bool.and_eq_true_iff.mp hy).2
  have hid : ∀ id other, other ∈ (rule.elementEvent? path (xs.length != ys.length) id
      (rule.find? id xs) (rule.find? id ys)).bind (Event.element? path) → other = id := by
    intro id other hother
    obtain ⟨e, he, helement⟩ := Option.bind_eq_some_iff.mp hother
    exact Option.some.inj (helement.symm.trans (element?_elementEvent? e he))
  have hold : xs.length =
      ((rule.identities xs).toFinset \ (rule.identities ys).toFinset).card +
        ((rule.identities xs).toFinset ∩ (rule.identities ys).toFinset).card :=
    (length_eq_card hx).trans (Finset.card_sdiff_add_card_inter _ _).symm
  have hnew : ys.length =
      ((rule.identities ys).toFinset \ (rule.identities xs).toFinset).card +
        ((rule.identities xs).toFinset ∩ (rule.identities ys).toFinset).card := by
    rw [Finset.inter_comm]
    exact (length_eq_card hy).trans (Finset.card_sdiff_add_card_inter _ _).symm
  -- the removed and the added elements are counted by the events about them
  rw [← length_removals path hx hy h] at hold
  rw [← length_additions path hx hy h] at hnew
  have htainted : ∀ e ∈ Event.direct path (rule.diff path (.list xs) (.list ys)), ∀ tainted,
      e.tainted? = some tainted → tainted = (xs.length != ys.length) := by
    rw [direct_diff path hx hy h]
    intro e he tainted hmark
    obtain ⟨id, _, he⟩ := List.mem_filterMap.mp he
    exact tainted?_elementEvent? he hmark
  refine ⟨?once, ?known, hold, hnew, by omega, ?nested, htainted, ?untainted⟩
  case once =>
    rw [direct_diff path hx hy h, List.filterMap_filterMap]
    apply List.Nodup.filterMap _ (Keyed.sortKeys_nodup _)
    intro id id' other hother hother'
    exact (hid id other hother).symm.trans (hid id' other hother')
  case known =>
    rw [direct_diff path hx hy h, List.filterMap_filterMap]
    intro other hother
    obtain ⟨id, hm, hother⟩ := List.mem_filterMap.mp hother
    rwa [hid id other hother, ← List.mem_append, ← Keyed.mem_sortKeys]
  case nested =>
    intro e
    rw [direct_diff path hx hy h, List.mem_filter, List.mem_filterMap]
    constructor
    · rintro ⟨⟨id, _, he⟩, hnested⟩
      obtain ⟨v, w, hv, hw, hvw, rfl⟩ := (nested_elementEvent? _).mp ⟨he, hnested⟩
      rw [find?_eq_some_iff hindexx, identityOf_eq_some_iff] at hv
      rw [find?_eq_some_iff hindexy, identityOf_eq_some_iff] at hw
      exact ⟨id, v, w, rfl, hv.1, hv.2, hw.1, hw.2, hvw⟩
    · rintro ⟨id, v, w, rfl, hv, hvid, hw, hwid, hvw⟩
      rw [← identityOf_eq_some_iff] at hvid hwid
      have hfind := (find?_eq_some_iff hindexx).mpr ⟨hv, hvid⟩
      have hm : id ∈ rule.identities xs := List.mem_filterMap.mpr ⟨v, hv, hvid⟩
      obtain ⟨he, hnested⟩ := (nested_elementEvent? (xs.length != ys.length)).mpr
        ⟨v, w, hfind, (find?_eq_some_iff hindexy).mpr ⟨hw, hwid⟩, hvw, rfl⟩
      exact ⟨⟨id, (Keyed.mem_sortKeys).mpr (List.mem_append_left _ hm), he⟩, hnested⟩
  case untainted =>
    rintro ⟨e, he, hmark⟩
    have hlengths : xs.length = ys.length := by simpa using htainted e he false hmark
    omega

end Lists
end IdentityRule

/-- No element of an identity list gets lost or is counted twice, neither in the index of the list
nor by the events of a comparison with another one. -/
theorem elements_accounted (rule : IdentityRule) :
    (∀ items : List Node, (rule.index items).isSome = true ↔
      ∃ names : List String, List.Forall₂ rule.IsNamed items names ∧ names.Nodup) ∧
    (∀ (items : List Node) (map : List (String × Node)), rule.index items = some map →
      rule.Indexes items map) ∧
    ∀ (path : Path) (xs ys : List Node), rule.isMatchable xs = true →
      rule.isMatchable ys = true → rule.equivalent (.list xs) (.list ys) = false →
      rule.Accounts path xs ys (Event.direct path (rule.diff path (.list xs) (.list ys))) := by
  refine ⟨?index, ?indexed, ?accounts⟩
  case index => exact fun _ => IdentityRule.index_isSome_iff_names
  case indexed => exact fun _ _ => IdentityRule.indexes_of_index
  case accounts => exact fun path _ _ => IdentityRule.accounts_of_matched path

private def task (name image : String) (steps : List Node) : Node :=
  .mapping [("image", .string image), ("name", .string name), ("steps", .list steps)]

private def tasksBefore : List Node :=
  [task "build" "v1" [task "lint" "v1" []], task "test" "v1" [], task "deploy" "v1" []]

private def tasksAfter : List Node :=
  [task "deploy" "v1" [], task "build" "v1" [task "check" "v1" []]]

/-- A task is removed, and a step inside another task is replaced by one with a new name. Only the
first is about a task of the list. -/
theorem elements_accounted_tasks :
    (∃ map, IdentityRule.index {} tasksBefore = some map ∧
      IdentityRule.Indexes {} tasksBefore map) ∧
    IdentityRule.isMatchable {} tasksBefore = true ∧
      IdentityRule.isMatchable {} tasksAfter = true ∧
      IdentityRule.equivalent {} (.list tasksBefore) (.list tasksAfter) = false ∧
      (IdentityRule.diff {} .root (.list tasksBefore) (.list tasksAfter)).length = 5 ∧
      (Event.direct .root
        (IdentityRule.diff {} .root (.list tasksBefore) (.list tasksAfter))).length = 2 ∧
      IdentityRule.Accounts {} .root tasksBefore tasksAfter
        (Event.direct .root
          (IdentityRule.diff {} .root (.list tasksBefore) (.list tasksAfter))) := by
  have hx : IdentityRule.isMatchable {} tasksBefore = true := by decide
  have hy : IdentityRule.isMatchable {} tasksAfter = true := by decide
  have h : IdentityRule.equivalent {} (.list tasksBefore) (.list tasksAfter) = false := by decide
  obtain ⟨map, hmap⟩ := Option.isSome_iff_exists.mp (Bool.and_eq_true_iff.mp hx).2
  obtain ⟨_, hindexed, haccounts⟩ := elements_accounted {}
  exact ⟨⟨map, hmap, hindexed _ map hmap⟩, hx, hy, h, by decide, by decide,
    haccounts .root _ _ hx hy h⟩

end ManifestDiff
