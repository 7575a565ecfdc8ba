import ManifestDiff.Proofs.Manifest.Object
/-!
# Which nodes are objects

The requirements on an object are one on the node itself and one on each field that is looked at, in
a fixed order. A node that meets all of them is read as the object that stands in it; any other node
is refused by an error about the first requirement that it does not meet.
-/
namespace ManifestDiff

open Keyed

namespace ObjectKey

/-- The namespace of an object that names none, or the one that counts as none. -/
def IsDefaultNamespace (ns : Option String) : Prop :=
  ns = none ∨ ns = some "" ∨ ns = some "default"

theorem normalNamespace_eq_none_iff {ns : Option String} :
    normalNamespace ns = none ↔ IsDefaultNamespace ns := by
  cases ns with
  | none => simp [normalNamespace, IsDefaultNamespace]
  | some s => simp [normalNamespace, IsDefaultNamespace, or_iff_not_imp_left]

theorem normalNamespace_of_not_default {ns : Option String} (h : ¬IsDefaultNamespace ns) :
    normalNamespace ns = ns := by
  cases ns with
  | none => rfl
  | some s => simp_all [normalNamespace, IsDefaultNamespace]

/-- Two namespaces count as one when they are the same or when both count as none. -/
theorem normalNamespace_eq_iff {a b : Option String} :
    normalNamespace a = normalNamespace b ↔
      a = b ∨ IsDefaultNamespace a ∧ IsDefaultNamespace b := by
  by_cases ha : IsDefaultNamespace a
  · rw [(normalNamespace_eq_none_iff).mpr ha, eq_comm, normalNamespace_eq_none_iff]
    constructor
    · exact fun hb => .inr ⟨ha, hb⟩
    · rintro (rfl | ⟨-, hb⟩)
      · exact ha
      · exact hb
  · rw [normalNamespace_of_not_default ha]
    by_cases hb : IsDefaultNamespace b
    · rw [(normalNamespace_eq_none_iff).mpr hb]
      constructor
      · exact fun hnone => absurd (.inl hnone) ha
      · rintro (rfl | ⟨h, -⟩)
        · exact absurd hb ha
        · exact absurd h ha
    · rw [normalNamespace_of_not_default hb, or_iff_left fun h => ha h.1]

theorem of_eq_of_iff {kind kind' name name' : String} {ns ns' : Option String} :
    of kind ns name = of kind' ns' name' ↔ kind = kind' ∧ name = name' ∧
      (ns = ns' ∨ IsDefaultNamespace ns ∧ IsDefaultNamespace ns') := by
  rw [of, of, ObjectKey.mk.injEq, normalNamespace_eq_iff, and_comm (a := name = name')]

end ObjectKey

namespace Field

def all : List Field := [.apiVersion, .kind, .metadata, .name, .namespaceName]

def earlier (field : Field) : List Field := all.takeWhile (· ≠ field)

def value? (node : Node) : Field → Option Node
  | .apiVersion => node.get? "apiVersion"
  | .kind => node.get? "kind"
  | .metadata => node.get? "metadata"
  | .name => (node.get? "metadata").bind (Node.get? "name")
  | .namespaceName => (node.get? "metadata").bind (Node.get? "namespace")

def text? (node : Node) (field : Field) : Option String :=
  (field.value? node).bind Node.string?

def Accepts : Field → Option Node → Prop
  | .metadata, value? => ∃ entries, value? = some (.mapping entries)
  | .namespaceName, value? => value? = none ∨ ∃ s, value? = some (.string s)
  | _, value? => ∃ s, value? = some (.string s) ∧ s ≠ ""

/-- How a field is blamed that does not have an accepted value. A null is a missing value, except
for the namespace, which may be missing. -/
inductive Blames (field : Field) (object : ObjectRef) : Option Node → ManifestError → Prop
  | absent : Blames field object none (.missingField object field)
  | null (h : field ≠ .namespaceName) :
    Blames field object (some .null) (.missingField object field)
  | unfit {value : Node} (h : value ≠ .null ∨ field = .namespaceName) :
    Blames field object (some value) (.invalidField object field value.shape)

/-- The object as an error about the field names it: with the kind and with the name if they come
before the field. -/
def object (node : Node) (index : Nat) (field : Field) : ObjectRef where
  index := index
  kind := if .kind ∈ field.earlier then Field.kind.text? node else none
  name := if .name ∈ field.earlier then Field.name.text? node else none

end Field

namespace Object

structure Valid (node : Node) : Prop where
  root : ∃ entries, node = .mapping entries
  fields : ∀ field : Field, field.Accepts (field.value? node)

/-- The error about the first requirement that the node does not meet. -/
inductive Refused (node : Node) (index : Nat) : ManifestError → Prop
  | root (h : ∀ entries, node ≠ .mapping entries) :
    Refused node index (.notAMapping index node.shape)
  | field (field : Field) {error : ManifestError} (hroot : ∃ entries, node = .mapping entries)
    (hearlier : ∀ met ∈ field.earlier, met.Accepts (met.value? node))
    (hunmet : ¬field.Accepts (field.value? node))
    (hblames : field.Blames (field.object node index) (field.value? node) error) :
    Refused node index error

inductive SectionOf : Option Node → Option Node → Prop
  | absent : SectionOf none none
  | null : SectionOf (some .null) none
  | present {value : Node} (h : value ≠ .null) : SectionOf (some value) (some value)

/-- The object is what stands in the node. -/
structure Reads (node : Node) (object : Object) : Prop where
  apiVersion : Field.apiVersion.value? node = some (.string object.apiVersion)
  kind : Field.kind.value? node = some (.string object.kind)
  metadata : Field.metadata.value? node = some (.mapping object.metadata)
  data : SectionOf (node.get? "data") object.data
  spec : SectionOf (node.get? "spec") object.spec
  name : Field.name.value? node = some (.string object.name)
  key : object.key = .of object.kind (Field.namespaceName.text? node) object.name

private theorem requireString_error {ref : ObjectRef} {field : Field} {node? : Option Node}
    {error : ManifestError} (h : requireString ref field node? = .error error)
    (hfield : field ≠ .namespaceName) :
    (¬∃ s, node? = some (.string s) ∧ s ≠ "") ∧ field.Blames ref node? error := by
  refine ⟨fun ⟨s, hs⟩ => ?_, ?_⟩
  · rw [(requireString_eq_ok_iff).mpr hs] at h
    cases h
  unfold requireString at h
  split at h
  next =>
    cases h
    exact .absent
  next =>
    cases h
    exact .null hfield
  next node hnull =>
    split at h
    next =>
      split at h
      · cases h
        exact .unfit (.inl hnull)
      · cases h
    next =>
      cases h
      exact .unfit (.inl hnull)

private theorem requireMetadata_error {ref : ObjectRef} {node? : Option Node}
    {error : ManifestError} (h : requireMetadata ref node? = .error error) :
    ¬Field.metadata.Accepts node? ∧ Field.metadata.Blames ref node? error := by
  refine ⟨fun ⟨entries, hentries⟩ => ?_, ?_⟩
  · rw [(requireMetadata_eq_ok_iff).mpr hentries] at h
    cases h
  unfold requireMetadata at h
  split at h
  next =>
    cases h
    exact .absent
  next =>
    cases h
    exact .null (by decide)
  next => cases h
  next node hnull _ =>
    cases h
    exact .unfit (.inl hnull)

theorem accepts_namespaceName_iff {node? : Option Node} :
    Field.namespaceName.Accepts node? ↔
      ∀ node, node? = some node → (node.string?).isSome = true := by
  match node? with
  | none => simp [Field.Accepts]
  | some (.mapping _) | some (.list _) => simp [Field.Accepts, Node.string, Node.string?]
  | some (.scalar value) =>
    cases value <;> simp [Field.Accepts, Node.string, Node.string?, Scalar.string?]

private theorem checkNamespace_error {ref : ObjectRef} {node? : Option Node}
    {error : ManifestError} (h : checkNamespace ref node? = .error error) :
    ¬Field.namespaceName.Accepts node? ∧ Field.namespaceName.Blames ref node? error := by
  refine ⟨fun haccepts => ?_, ?_⟩
  · have hok : checkNamespace ref node? = .ok () :=
      (checkNamespace_eq_ok_iff).mpr ((accepts_namespaceName_iff).mp haccepts)
    rw [hok] at h
    cases h
  unfold checkNamespace at h
  split at h
  next => cases h
  next node =>
    split at h
    next => cases h
    next =>
      cases h
      exact .unfit (.inr rfl)

variable {node : Node} {index : Nat} {error : ManifestError} {object : Object}

private theorem value?_name {metadata : List (String × Node)}
    (h : Field.metadata.value? node = some (.mapping metadata)) :
    Field.name.value? node = find? "name" metadata := by
  have hget : node.get? "metadata" = some (.mapping metadata) := h
  rw [Field.value?, hget]
  rfl

private theorem value?_namespaceName {metadata : List (String × Node)}
    (h : Field.metadata.value? node = some (.mapping metadata)) :
    Field.namespaceName.value? node = find? "namespace" metadata := by
  have hget : node.get? "metadata" = some (.mapping metadata) := h
  rw [Field.value?, hget]
  rfl

private theorem object_of_kind (field : Field) {kind : String}
    (hkind : Field.kind.value? node = some (.string kind)) (hbefore : .kind ∈ field.earlier)
    (hname : .name ∉ field.earlier) :
    field.object node index = (ObjectRef.ofIndex index).withKind kind := by
  have htext : Field.kind.text? node = some kind := by
    rw [Field.text?, hkind]
    rfl
  rw [Field.object, if_pos hbefore, if_neg hname, htext]
  rfl

private theorem object_of_name (field : Field) {kind name : String}
    (hkind : Field.kind.value? node = some (.string kind))
    (hname : Field.name.value? node = some (.string name)) (hkind' : .kind ∈ field.earlier)
    (hname' : .name ∈ field.earlier) :
    field.object node index = ((ObjectRef.ofIndex index).withKind kind).withName name := by
  have htext : Field.kind.text? node = some kind := by
    rw [Field.text?, hkind]
    rfl
  have htext' : Field.name.text? node = some name := by
    rw [Field.text?, hname]
    rfl
  rw [Field.object, if_pos hkind', if_pos hname', htext, htext']
  rfl

private theorem met_before_next {field next : Field}
    (hnext : next.earlier = field.earlier ++ [field])
    (hbefore : ∀ met ∈ field.earlier, met.Accepts (met.value? node))
    (hmet : field.Accepts (field.value? node)) :
    ∀ met ∈ next.earlier, met.Accepts (met.value? node) := by
  rw [hnext, List.forall_mem_append, List.forall_mem_singleton]
  exact ⟨hbefore, hmet⟩

/-- The checks are made one after the other, and each leaves what it has read to the ref of the
later ones. -/
theorem refused_of_ofNode (h : ofNode node index = .error error) : Refused node index error := by
  cases node with
  | list items =>
    cases h
    exact .root nofun
  | scalar value =>
    cases h
    exact .root nofun
  | mapping root =>
    have hroot : ∃ entries, Node.mapping root = .mapping entries := ⟨root, rfl⟩
    simp only [ofNode, bind_eq_error_iff, pure, Except.pure, reduceCtorEq, and_false, exists_false,
      or_false] at h
    have hstart : ∀ met ∈ Field.apiVersion.earlier, met.Accepts (met.value? (.mapping root)) :=
      List.forall_mem_nil _
    rcases h with h | ⟨apiVersion, hread, h⟩
    · obtain ⟨hunmet, hblames⟩ := requireString_error h (by decide)
      exact .field .apiVersion hroot hstart hunmet hblames
    have hapi : ∀ met ∈ Field.kind.earlier, met.Accepts (met.value? (.mapping root)) :=
      met_before_next rfl hstart ⟨apiVersion, (requireString_eq_ok_iff).mp hread⟩
    rcases h with h | ⟨kind, hread, h⟩
    · obtain ⟨hunmet, hblames⟩ := requireString_error h (by decide)
      exact .field .kind hroot hapi hunmet hblames
    have hvalue : Field.kind.value? (.mapping root) = some (.string kind) :=
      ((requireString_eq_ok_iff).mp hread).1
    have hkind : ∀ met ∈ Field.metadata.earlier, met.Accepts (met.value? (.mapping root)) :=
      met_before_next rfl hapi ⟨kind, (requireString_eq_ok_iff).mp hread⟩
    rcases h with h | ⟨metadata, hread, h⟩
    · obtain ⟨hunmet, hblames⟩ := requireMetadata_error h
      rw [← object_of_kind .metadata hvalue (by decide) (by decide)] at hblames
      exact .field .metadata hroot hkind hunmet hblames
    have hmapping : Field.metadata.value? (.mapping root) = some (.mapping metadata) :=
      (requireMetadata_eq_ok_iff).mp hread
    have hmetadata : ∀ met ∈ Field.name.earlier, met.Accepts (met.value? (.mapping root)) :=
      met_before_next rfl hkind ⟨metadata, hmapping⟩
    rw [← value?_name hmapping, ← value?_namespaceName hmapping] at h
    rcases h with h | ⟨name, hread, h⟩
    · obtain ⟨hunmet, hblames⟩ := requireString_error h (by decide)
      rw [← object_of_kind .name hvalue (by decide) (by decide)] at hblames
      exact .field .name hroot hmetadata hunmet hblames
    have hname : ∀ met ∈ Field.namespaceName.earlier, met.Accepts (met.value? (.mapping root)) :=
      met_before_next rfl hmetadata ⟨name, (requireString_eq_ok_iff).mp hread⟩
    obtain ⟨hunmet, hblames⟩ := checkNamespace_error h
    rw [← object_of_name .namespaceName hvalue ((requireString_eq_ok_iff).mp hread).1 (by decide)
      (by decide)] at hblames
    exact .field .namespaceName hroot hname hunmet hblames

private theorem blames_unique {field : Field} {ref : ObjectRef} {value? : Option Node}
    {error' : ManifestError} (h : field.Blames ref value? error)
    (h' : field.Blames ref value? error') : error = error' := by
  cases h with
  | absent =>
    cases h'
    rfl
  | null hfield =>
    cases h' with
    | null _ => rfl
    | unfit hvalue => simp [hfield] at hvalue
  | unfit hvalue =>
    cases h' with
    | null hfield => simp [hfield] at hvalue
    | unfit _ => rfl

private theorem eq_or_mem_earlier (field other : Field) :
    field = other ∨ field ∈ other.earlier ∨ other ∈ field.earlier := by
  cases field <;> cases other <;> decide

theorem Refused.unique {error' : ManifestError} (h : Refused node index error)
    (h' : Refused node index error') : error = error' := by
  cases h with
  | root hroot =>
    cases h' with
    | root _ => rfl
    | field _ hmapping =>
      obtain ⟨entries, rfl⟩ := hmapping
      exact absurd rfl (hroot entries)
  | field field hmapping hearlier hunmet hblames =>
    cases h' with
    | root hroot =>
      obtain ⟨entries, rfl⟩ := hmapping
      exact absurd rfl (hroot entries)
    | field other _ hearlier' hunmet' hblames' =>
      rcases eq_or_mem_earlier field other with rfl | hm | hm
      · exact blames_unique hblames hblames'
      · exact absurd (hearlier' field hm) hunmet
      · exact absurd (hearlier other hm) hunmet'

theorem Refused.not_valid (h : Refused node index error) : ¬Valid node := by
  rintro ⟨⟨entries, rfl⟩, hfields⟩
  cases h with
  | root hroot => exact hroot entries rfl
  | field field _ _ hunmet _ => exact hunmet (hfields field)

private theorem sectionOf_presentSection (value? : Option Node) :
    SectionOf value? (presentSection value?) := by
  match value? with
  | none => exact .absent
  | some (.scalar .null) => exact .null
  | some (.mapping _) | some (.list _) | some (.scalar (.bool _)) | some (.scalar (.int _))
  | some (.scalar (.uint _)) | some (.scalar (.float _)) | some (.scalar (.string _)) =>
    exact .present nofun

theorem SectionOf.unique {value? section? section?' : Option Node} (h : SectionOf value? section?)
    (h' : SectionOf value? section?') : section? = section?' := by
  cases h with
  | absent =>
    cases h'
    rfl
  | null =>
    cases h' with
    | null => rfl
    | present hne => exact absurd rfl hne
  | present hne =>
    cases h' with
    | null => exact absurd rfl hne
    | present _ => rfl

theorem Reads.unique {object' : Object} (h : Reads node object) (h' : Reads node object') :
    object = object' := by
  have hapi := h.apiVersion.symm.trans h'.apiVersion
  have hkind := h.kind.symm.trans h'.kind
  have hmetadata := h.metadata.symm.trans h'.metadata
  have hdata := h.data.unique h'.data
  have hspec := h.spec.unique h'.spec
  simp only [Node.string, Option.some.injEq, Node.scalar.injEq, Scalar.string.injEq,
    Node.mapping.injEq] at hapi hkind hmetadata
  obtain ⟨apiVersion, kind, metadata, data, spec⟩ := object
  obtain ⟨apiVersion', kind', metadata', data', spec'⟩ := object'
  rw [Object.mk.injEq]
  exact ⟨hapi, hkind, hmetadata, hdata, hspec⟩

theorem valid_and_reads_of_ofNode (h : ofNode node index = .ok object) :
    Valid node ∧ Reads node object := by
  obtain ⟨root, rfl, hapi, hkind, hmetadata, ⟨name, hname⟩, hns, hdata, hspec⟩ :=
    (ofNode_eq_ok_iff).mp h
  have hmapping : Field.metadata.value? (.mapping root) = some (.mapping object.metadata) :=
    hmetadata
  have hobject : object.name = name := by
    rw [Object.name, hname.1]
    rfl
  refine ⟨⟨⟨root, rfl⟩, ?fields⟩, ?reads⟩
  case fields =>
    intro field
    cases field with
    | apiVersion => exact ⟨_, hapi⟩
    | kind => exact ⟨_, hkind⟩
    | metadata => exact ⟨_, hmapping⟩
    | name =>
      rw [value?_name hmapping]
      exact ⟨name, hname⟩
    | namespaceName =>
      rw [value?_namespaceName hmapping]
      exact (accepts_namespaceName_iff).mpr hns
  case reads =>
    refine ⟨hapi.1, hkind.1, hmapping, ?_, ?_, ?_, ?_⟩
    · rw [hdata]
      exact sectionOf_presentSection _
    · rw [hspec]
      exact sectionOf_presentSection _
    · rw [value?_name hmapping, hname.1, hobject]
    · rw [Object.key, Object.namespaceName?, Field.text?, value?_namespaceName hmapping]

theorem exists_ofNode_eq_ok_iff : (∃ object, ofNode node index = .ok object) ↔ Valid node := by
  constructor
  · rintro ⟨object, h⟩
    exact (valid_and_reads_of_ofNode h).1
  · intro hvalid
    cases h : ofNode node index with
    | ok object => exact ⟨object, rfl⟩
    | error error => exact absurd hvalid (refused_of_ofNode h).not_valid

theorem ofNode_eq_error_iff : ofNode node index = .error error ↔ Refused node index error := by
  refine ⟨refused_of_ofNode, fun hrefused => ?_⟩
  cases h : ofNode node index with
  | ok object => exact absurd (valid_and_reads_of_ofNode h).1 hrefused.not_valid
  | error error' => rw [hrefused.unique (refused_of_ofNode h)]

/-- An object is read from every node that meets the requirements and holds what stands there; from
any other node the first requirement that is not met is told. Two objects share a key when they
share kind, name and namespace, where several namespaces count as none. -/
theorem ofNode_validates (node : Node) (index : Nat) :
    ((∃ object, ofNode node index = .ok object) ↔ Valid node) ∧
    (∀ object, ofNode node index = .ok object ↔ Valid node ∧ Reads node object) ∧
    (∀ error, ofNode node index = .error error ↔ Refused node index error) ∧
    ∀ node' index' a b, ofNode node index = .ok a → ofNode node' index' = .ok b →
      (a.key = b.key ↔ a.kind = b.kind ∧ a.name = b.name ∧
        (Field.namespaceName.text? node = Field.namespaceName.text? node' ∨
          ObjectKey.IsDefaultNamespace (Field.namespaceName.text? node) ∧
            ObjectKey.IsDefaultNamespace (Field.namespaceName.text? node'))) := by
  refine ⟨exists_ofNode_eq_ok_iff, ?read, fun _ => ofNode_eq_error_iff, ?keys⟩
  case read =>
    intro object
    refine ⟨valid_and_reads_of_ofNode, fun ⟨hvalid, hreads⟩ => ?_⟩
    have hexists : ∃ object, ofNode node index = .ok object := (exists_ofNode_eq_ok_iff).mpr hvalid
    obtain ⟨object', h⟩ := hexists
    rw [h, hreads.unique (valid_and_reads_of_ofNode h).2]
  case keys =>
    intro node' index' a b ha hb
    rw [(valid_and_reads_of_ofNode ha).2.key, (valid_and_reads_of_ofNode hb).2.key,
      ObjectKey.of_eq_of_iff]

private def service (ns : Node) : Node :=
  .mapping [("apiVersion", .string "v1"), ("kind", .string "Service"),
    ("metadata", .mapping [("name", .string "web"), ("namespace", ns)]), ("spec", .null)]

private def unnamed : Node :=
  .mapping [("apiVersion", .string "v1"), ("kind", .string "Service"),
    ("metadata", .mapping [("name", .null), ("namespace", .list [])])]

private def serviceObject (ns : Node) : Object :=
  { apiVersion := "v1", kind := "Service", metadata := [("name", .string "web"), ("namespace", ns)]
    data := none, spec := none }

/-- Two services are the same object, as their namespaces count as none. A null namespace is blamed
with kind and name, and a null name with the kind only, although the namespace is no string. -/
theorem ofNode_validates_services :
    ofNode (service (.string "")) 1 = .ok (serviceObject (.string "")) ∧
    ofNode (service (.string "default")) 2 = .ok (serviceObject (.string "default")) ∧
    (serviceObject (.string "")).key = (serviceObject (.string "default")).key ∧
    Reads (service (.string "")) (serviceObject (.string "")) ∧
    Refused (service .null) 3
      (.invalidField ⟨3, some "Service", some "web"⟩ .namespaceName .null) ∧
    Refused unnamed 4 (.missingField ⟨4, some "Service", none⟩ .name) := by
  obtain ⟨-, hread, -, hkeys⟩ := ofNode_validates (service (.string "")) 1
  obtain ⟨-, -, hnull, -⟩ := ofNode_validates (service .null) 3
  obtain ⟨-, -, hunnamed, -⟩ := ofNode_validates unnamed 4
  have hempty : ofNode (service (.string "")) 1 = .ok (serviceObject (.string "")) := rfl
  have hdefault : ofNode (service (.string "default")) 2 =
      .ok (serviceObject (.string "default")) := rfl
  exact ⟨hempty, hdefault, (hkeys _ _ _ _ hempty hdefault).mpr ⟨rfl, rfl, .inr
      ⟨.inr (.inl rfl), .inr (.inr rfl)⟩⟩, ((hread _).mp hempty).2, (hnull _).mp rfl,
    (hunnamed _).mp rfl⟩

end Object
end ManifestDiff
