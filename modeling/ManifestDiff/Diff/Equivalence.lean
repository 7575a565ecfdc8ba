import ManifestDiff.Node.Json
/-!
# Equivalence

Lists whose elements are records with a name are compared by that name and not by position. A list
looks like one by its first element; it is matched by identity only if every element has a name of
its own. Two values are equivalent when comparing them reports nothing: as equality, except that the
elements of such lists may stand in any order. `strategy?` names the comparison of two values that
are not equivalent.
-/
namespace ManifestDiff

/-- By default a list of containers, which have a `name` and an `image`. -/
structure IdentityRule where
  /-- The key whose string value identifies an element. -/
  nameKey : String := "name"
  /-- The other key that the first element carries. -/
  typeKey : String := "image"
  label : String := "container"
deriving DecidableEq, Repr, Inhabited

namespace IdentityRule

def isIdentityList (rule : IdentityRule) : List Node → Bool
  | .mapping entries :: _ =>
    Keyed.contains rule.nameKey entries && Keyed.contains rule.typeKey entries
  | _ => false

def identityOf (rule : IdentityRule) (item : Node) : Option String :=
  (item.get? rule.nameKey).bind Node.string?

/-- The elements by identity, unless one has none or two have the same. -/
def index (rule : IdentityRule) : List Node → Option (List (String × Node))
  | [] => some []
  | item :: rest => do
    let id ← rule.identityOf item
    let map ← index rule rest
    if Keyed.contains id map then none else some (Keyed.insert id item map)

def find? (rule : IdentityRule) (id : String) (items : List Node) : Option Node :=
  items.find? fun item => rule.identityOf item == some id

/-- The identities of the elements that have one, in list order. -/
def identities (rule : IdentityRule) (items : List Node) : List String :=
  items.filterMap rule.identityOf

def areIdentityLists (rule : IdentityRule) (xs ys : List Node) : Bool :=
  rule.isIdentityList xs && rule.isIdentityList ys

/-- Both lists look like identity lists, and all their elements can be told apart. -/
def matchesByIdentity (rule : IdentityRule) (xs ys : List Node) : Bool :=
  rule.areIdentityLists xs ys && (rule.index xs).isSome && (rule.index ys).isSome

def toJson (rule : IdentityRule) : Json.Value :=
  .object [("name_key", .string rule.nameKey), ("type_key", .string rule.typeKey),
    ("label", .string rule.label)]

variable {rule : IdentityRule}

theorem index_cons_eq_some_iff {item : Node} {rest : List Node}
    {map : List (String × Node)} :
    rule.index (item :: rest) = some map ↔ ∃ id tail, rule.identityOf item = some id ∧
      rule.index rest = some tail ∧ Keyed.contains id tail = false ∧
        Keyed.insert id item tail = map := by
  cases hid : rule.identityOf item with
  | none => simp [index, hid]
  | some id =>
    cases htail : rule.index rest with
    | none => simp [index, hid, htail]
    | some tail => cases hc : Keyed.contains id tail <;> simp [index, hid, htail, hc]

theorem mem_of_index {items : List Node} {map : List (String × Node)}
    (h : rule.index items = some map) : ∀ entry ∈ map, entry.2 ∈ items := by
  induction items generalizing map with
  | nil =>
    cases h
    exact nofun
  | cons item rest ih =>
    obtain ⟨id, tail, _, htail, _, rfl⟩ := (index_cons_eq_some_iff).mp h
    intro entry hm
    rcases Keyed.mem_of_mem_insert hm with rfl | hm
    · exact List.mem_cons_self
    · exact List.mem_cons_of_mem _ (ih htail entry hm)

theorem sizeOf_lt_of_index {id : String} {v : Node} {items : List Node}
    {map : List (String × Node)} (h : rule.index items = some map)
    (hv : Keyed.find? id map = some v) : sizeOf v < sizeOf items := by
  obtain ⟨l, hm⟩ := Keyed.exists_mem_of_find? hv
  exact List.sizeOf_lt_of_mem (mem_of_index h (l, v) hm)

end IdentityRule
end ManifestDiff

namespace ManifestDiff.IdentityRule

mutual

def equivalent (rule : IdentityRule) : Node → Node → Bool
  | .mapping xs, .mapping ys =>
    (Node.mapping xs).equal (.mapping ys) ||
      xs.length == ys.length && equivalentEntries rule xs ys
  | .list xs, .list ys =>
    (Node.list xs).equal (.list ys) ||
      xs.length == ys.length &&
        if rule.matchesByIdentity xs ys then equivalentElements rule xs ys
        else equivalentItems rule xs ys
  | .scalar a, .scalar b => a.equal b
  | _, _ => false
termination_by structural xs => xs

def equivalentEntries (rule : IdentityRule) :
    List (String × Node) → List (String × Node) → Bool
  | [], _ => true
  | (k, v) :: xs, ys =>
    (match Keyed.find? k ys with
      | some w => equivalent rule v w
      | none => false) && equivalentEntries rule xs ys
termination_by structural xs => xs

def equivalentElements (rule : IdentityRule) : List Node → List Node → Bool
  | [], _ => true
  | v :: xs, ys =>
    (match (rule.identityOf v).bind (rule.find? · ys) with
      | some w => equivalent rule v w
      | none => false) && equivalentElements rule xs ys
termination_by structural xs => xs

def equivalentItems (rule : IdentityRule) : List Node → List Node → Bool
  | v :: xs, w :: ys => equivalent rule v w && equivalentItems rule xs ys
  | _, _ => true
termination_by structural xs => xs

end

end ManifestDiff.IdentityRule

namespace ManifestDiff

inductive Strategy where
  | mapping
  | positionalList
  | identityList
  | replacement
deriving DecidableEq, Repr

def IdentityRule.strategy? (rule : IdentityRule) (a b : Node) : Option Strategy :=
  if rule.equivalent a b then none
  else match a, b with
    | .mapping _, .mapping _ => some .mapping
    | .list xs, .list ys =>
      if rule.areIdentityLists xs ys then some .identityList else some .positionalList
    | _, _ => some .replacement

end ManifestDiff
