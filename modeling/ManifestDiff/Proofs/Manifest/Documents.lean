import ManifestDiff.Manifest.Documents
import ManifestDiff.Proofs.Manifest.Validation
import Mathlib.Data.List.Forall2
/-!
# The documents of a manifest

A document may be faulty before an object is looked for in it, or only as an object. All documents
are decoded before the first object is read, so the first fault of the one kind comes before every
fault of the other, wherever they stand. Null documents have no fault and no object, but a position.
-/
namespace ManifestDiff

def ManifestError.position : ManifestError → Nat
  | .badDocument index | .badKey index _ | .notAMapping index _ => index
  | .missingField object _ | .invalidField object _ _ => object.index

namespace Manifest

abbrev Item := Except Yaml.SyntaxError Yaml.Value

def Item.isPresent : Item → Bool
  | .ok value => !value.isNull
  | .error _ => true

/-- What a document at this position is decoded to: an error, nothing or a node. -/
inductive Decodes (position : Nat) : Item → Except ManifestError (Option Node) → Prop
  | text (cause : Yaml.SyntaxError) :
    Decodes position (.error cause) (.error (@ManifestError.badDocument cause position))
  | null {value : Yaml.Value} (hnull : value.isNull = true) :
    Decodes position (.ok value) (.ok none)
  | key {value : Yaml.Value} {cause : KeyError} (hpresent : value.isNull = false)
    (h : Node.ofYaml value = .error cause) :
    Decodes position (.ok value) (.error (.badKey position cause))
  | node {value : Yaml.Value} {node : Node} (hpresent : value.isNull = false)
    (h : Node.ofYaml value = .ok node) : Decodes position (.ok value) (.ok (some node))

def Undecodable (position : Nat) (item : Item) (error : ManifestError) : Prop :=
  Decodes position item (.error error)

def Invalid (position : Nat) (item : Item) (error : ManifestError) : Prop :=
  ∃ node, Decodes position item (.ok (some node)) ∧ Object.ofNode node position = .error error

/-- The first fault of a kind in the documents whose positions begin with this one. -/
def FirstFault (fault : Nat → Item → ManifestError → Prop) (start : Nat) (stream : List Item)
    (error : ManifestError) : Prop :=
  ∃ i item, stream[i]? = some item ∧ fault (start + i) item error ∧
    ∀ j < i, ∀ earlier, stream[j]? = some earlier → ∀ other, ¬fault (start + j) earlier other

def Faultless (fault : Nat → Item → ManifestError → Prop) (start : Nat) (stream : List Item) :
    Prop :=
  ∀ i item, stream[i]? = some item → ∀ error, ¬fault (start + i) item error

/-- The documents that are decoded to a node, each with its position, when the positions of the
stream begin with this one. -/
structure Numbered (start : Nat) (stream : List Item) (found : List Document) : Prop where
  increasing : (found.map Document.index).Pairwise (· < ·)
  mem : ∀ document, document ∈ found ↔ ∃ i item, document.index = start + i ∧
    stream[i]? = some item ∧ Decodes document.index item (.ok (some document.node))
  length : found.length = stream.countP Item.isPresent

variable {fault : Nat → Item → ManifestError → Prop} {start : Nat} {item : Item}
  {stream : List Item} {error : ManifestError}

theorem firstFault_nil : ¬FirstFault fault start [] error := by
  rintro ⟨i, item, hi, -⟩
  cases hi

theorem firstFault_cons :
    FirstFault fault start (item :: stream) error ↔ fault start item error ∨
      (∀ other, ¬fault start item other) ∧ FirstFault fault (start + 1) stream error := by
  have hnext (i : Nat) : start + (i + 1) = start + 1 + i := by omega
  constructor
  · rintro ⟨i, found, hi, hfault, hearlier⟩
    cases i with
    | zero =>
      cases hi
      exact .inl hfault
    | succ i =>
      refine .inr ⟨hearlier 0 (Nat.succ_pos i) item rfl, i, found, hi, hnext i ▸ hfault, ?_⟩
      intro j hj earlier hm other
      rw [← hnext]
      exact hearlier (j + 1) (Nat.succ_lt_succ hj) earlier hm other
  · rintro (hfault | ⟨hfirst, i, found, hi, hfault, hearlier⟩)
    · exact ⟨0, item, rfl, hfault, fun j hj => absurd hj (Nat.not_lt_zero j)⟩
    · refine ⟨i + 1, found, hi, (hnext i).symm ▸ hfault, ?_⟩
      intro j hj earlier hm other
      cases j with
      | zero =>
        cases hm
        exact hfirst other
      | succ j =>
        rw [hnext]
        exact hearlier j (Nat.lt_of_succ_lt_succ hj) earlier hm other

theorem faultless_iff :
    Faultless fault start stream ↔ ∀ error, ¬FirstFault fault start stream error := by
  constructor
  · rintro h error ⟨i, item, hi, hfault, -⟩
    exact h i item hi error hfault
  · intro h
    induction stream generalizing start with
    | nil =>
      intro i item hi
      cases hi
    | cons head rest ih =>
      have hhead (other : ManifestError) : ¬fault start head other :=
        fun hfault => h other ((firstFault_cons).mpr (.inl hfault))
      have hrest : Faultless fault (start + 1) rest :=
        ih fun error hfirst => h error ((firstFault_cons).mpr (.inr ⟨hhead, hfirst⟩))
      intro i item hi error
      cases i with
      | zero =>
        cases hi
        exact hhead error
      | succ i =>
        have hnext : start + (i + 1) = start + 1 + i := by omega
        rw [hnext]
        exact hrest i item hi error

theorem exists_decodes (position : Nat) (item : Item) :
    ∃ outcome, Decodes position item outcome := by
  match item with
  | .error fault => exact ⟨_, .text fault⟩
  | .ok value =>
    cases hnull : value.isNull with
    | true => exact ⟨_, .null hnull⟩
    | false =>
      cases h : Node.ofYaml value with
      | error cause => exact ⟨_, .key hnull h⟩
      | ok node => exact ⟨_, .node hnull h⟩

theorem Decodes.unique {position : Nat} {outcome outcome' : Except ManifestError (Option Node)}
    (h : Decodes position item outcome) (h' : Decodes position item outcome') :
    outcome = outcome' := by
  cases h <;> cases h' <;> simp_all

private theorem documentsFrom_of_error (h : Undecodable start item error) :
    documentsFrom start (item :: stream) = .error error := by
  cases h with
  | text fault => rfl
  | key hpresent hcause => simp [documentsFrom, hpresent, hcause]

private theorem documentsFrom_of_ok {node? : Option Node} (h : Decodes start item (.ok node?)) :
    documentsFrom start (item :: stream) =
      (documentsFrom (start + 1) stream).map (node?.toList.map (Document.mk start) ++ ·) := by
  cases h with
  | null hnull =>
    rw [documentsFrom, if_pos hnull]
    cases documentsFrom (start + 1) stream <;> rfl
  | node hpresent hnode =>
    simp only [documentsFrom, hpresent, hnode, Bool.false_eq_true, if_false]
    cases documentsFrom (start + 1) stream <;> rfl

private theorem undecodable_iff (h : Undecodable start item error) {other : ManifestError} :
    Undecodable start item other ↔ error = other :=
  ⟨fun h' => Except.error.inj (Decodes.unique h h'), fun he => he ▸ h⟩

private theorem not_undecodable {node? : Option Node} (h : Decodes start item (.ok node?))
    (other : ManifestError) : ¬Undecodable start item other :=
  fun h' => nomatch Decodes.unique h h'

theorem documentsFrom_eq_error_iff :
    documentsFrom start stream = .error error ↔ FirstFault Undecodable start stream error := by
  induction stream generalizing start with
  | nil =>
    rw [documentsFrom]
    exact iff_of_false nofun firstFault_nil
  | cons item rest ih =>
    obtain ⟨outcome, h⟩ := exists_decodes start item
    rw [firstFault_cons, ← ih]
    cases outcome with
    | error first =>
      have hfirst : Undecodable start item first := h
      rw [documentsFrom_of_error hfirst, undecodable_iff hfirst, Except.error.injEq,
        or_iff_left fun hrest => hrest.1 first hfirst]
    | ok node? =>
      rw [documentsFrom_of_ok h, or_iff_right (not_undecodable h error),
        and_iff_right (not_undecodable h)]
      cases documentsFrom (start + 1) rest <;> simp [Except.map]

private theorem isPresent_of_decodes {node? : Option Node} (h : Decodes start item (.ok node?)) :
    item.isPresent = node?.isSome := by
  cases h with
  | null hnull => simp [Item.isPresent, hnull]
  | node hpresent _ => simp [Item.isPresent, hpresent]

private theorem exists_item_cons_iff {P : Item → Prop} {index : Nat} :
    (∃ i found, index = start + i ∧ (item :: stream)[i]? = some found ∧ P found) ↔
      index = start ∧ P item ∨
        ∃ i found, index = start + 1 + i ∧ stream[i]? = some found ∧ P found := by
  constructor
  · rintro ⟨i, found, rfl, hi, hfound⟩
    cases i with
    | zero =>
      cases hi
      exact .inl ⟨rfl, hfound⟩
    | succ i => exact .inr ⟨i, found, by omega, hi, hfound⟩
  · rintro (⟨rfl, hitem⟩ | ⟨i, found, rfl, hi, hfound⟩)
    · exact ⟨0, item, rfl, rfl, hitem⟩
    · exact ⟨i + 1, found, by omega, hi, hfound⟩

theorem numbered_of_documentsFrom {found : List Document}
    (h : documentsFrom start stream = .ok found) : Numbered start stream found := by
  induction stream generalizing start found with
  | nil =>
    cases h
    exact ⟨.nil, by simp, rfl⟩
  | cons item rest ih =>
    obtain ⟨outcome, hitem⟩ := exists_decodes start item
    cases outcome with
    | error first =>
      rw [documentsFrom_of_error hitem] at h
      cases h
    | ok node? =>
      rw [documentsFrom_of_ok hitem, map_eq_ok_iff] at h
      obtain ⟨others, hothers, rfl⟩ := h
      obtain ⟨hincreasing, hmem, hlength⟩ := ih hothers
      refine ⟨?increasing, ?mem, ?length⟩
      case increasing =>
        rw [List.map_append, List.pairwise_append]
        refine ⟨by cases node? <;> simp, hincreasing, ?_⟩
        intro first hfirst later hlater
        obtain ⟨document, hdocument, rfl⟩ := List.mem_map.mp hlater
        obtain ⟨i, -, hindex, -⟩ := (hmem document).mp hdocument
        have hstart : start = first := by
          simp only [List.map_map, List.mem_map] at hfirst
          obtain ⟨_, _, hstart⟩ := hfirst
          exact hstart
        omega
      case mem =>
        intro document
        have hhead : document ∈ node?.toList.map (Document.mk start) ↔
            document.index = start ∧ Decodes document.index item (.ok (some document.node)) := by
          obtain ⟨index, node⟩ := document
          simp only [List.mem_map, Option.mem_toList, Document.mk.injEq]
          constructor
          · rintro ⟨_, rfl, rfl, rfl⟩
            exact ⟨rfl, hitem⟩
          · rintro ⟨rfl, h⟩
            exact ⟨node, Except.ok.inj (hitem.unique h), rfl, rfl⟩
        rw [List.mem_append, hhead, hmem, exists_item_cons_iff]
      case length =>
        rw [List.length_append, hlength, List.countP_cons, isPresent_of_decodes hitem]
        cases node? <;> simp [Nat.add_comm]

private theorem objectsOf_cons (document : Document) (found : List Document) :
    objectsOf (document :: found) = do
      let object ← Object.ofNode document.node document.index
      let objects ← objectsOf found
      return object :: objects :=
  List.mapM_cons

theorem objectsOf_eq_ok_iff {found : List Document} {objects : List Object} :
    objectsOf found = .ok objects ↔ List.Forall₂
      (fun document object => Object.ofNode document.node document.index = .ok object)
      found objects := by
  induction found generalizing objects with
  | nil => simp [objectsOf, pure, Except.pure, eq_comm]
  | cons document rest ih =>
    simp only [objectsOf_cons, bind_eq_ok_iff, ih, pure, Except.pure, Except.ok.injEq,
      List.forall₂_cons_left_iff]
    constructor
    · rintro ⟨object, hobject, others, hothers, rfl⟩
      exact ⟨object, others, hobject, hothers, rfl⟩
    · rintro ⟨object, others, hobject, hothers, rfl⟩
      exact ⟨object, hobject, others, hothers, rfl⟩

private theorem objectsOf_cons_eq_error_iff {document : Document} {found : List Document} :
    objectsOf (document :: found) = .error error ↔
      Object.ofNode document.node document.index = .error error ∨
        (∀ other, Object.ofNode document.node document.index ≠ .error other) ∧
          objectsOf found = .error error := by
  simp only [objectsOf_cons, bind_eq_error_iff, pure, Except.pure, reduceCtorEq, and_false,
    exists_false, or_false]
  cases Object.ofNode document.node document.index <;> simp

private theorem invalid_iff {node : Node} (h : Decodes start item (.ok (some node))) :
    Invalid start item error ↔ Object.ofNode node start = .error error := by
  constructor
  · rintro ⟨other, hother, hinvalid⟩
    cases hother.unique h
    exact hinvalid
  · exact fun hinvalid => ⟨node, h, hinvalid⟩

private theorem not_invalid (h : Decodes start item (.ok none)) (error : ManifestError) :
    ¬Invalid start item error :=
  fun ⟨_, hnode, _⟩ => nomatch Decodes.unique h hnode

theorem objectsOf_eq_error_iff {found : List Document}
    (h : documentsFrom start stream = .ok found) :
    objectsOf found = .error error ↔ FirstFault Invalid start stream error := by
  induction stream generalizing start found with
  | nil =>
    cases h
    exact iff_of_false nofun firstFault_nil
  | cons item rest ih =>
    obtain ⟨outcome, hitem⟩ := exists_decodes start item
    rw [firstFault_cons]
    cases outcome with
    | error first =>
      rw [documentsFrom_of_error hitem] at h
      cases h
    | ok node? =>
      rw [documentsFrom_of_ok hitem, map_eq_ok_iff] at h
      obtain ⟨others, hothers, rfl⟩ := h
      rw [← ih hothers]
      cases node? with
      | none => simp [not_invalid hitem]
      | some node =>
        simp only [invalid_iff hitem]
        exact objectsOf_cons_eq_error_iff

theorem objects_eq_error_iff :
    objects stream = .error error ↔ FirstFault Undecodable 1 stream error ∨
      Faultless Undecodable 1 stream ∧ FirstFault Invalid 1 stream error := by
  rw [objects, bind_eq_error_iff, documents, documentsFrom_eq_error_iff, faultless_iff]
  apply or_congr_right
  constructor
  · rintro ⟨found, hfound, herror⟩
    refine ⟨fun other hother => ?_, (objectsOf_eq_error_iff hfound).mp herror⟩
    rw [(documentsFrom_eq_error_iff).mpr hother] at hfound
    cases hfound
  · rintro ⟨hfaultless, hinvalid⟩
    cases hfound : documentsFrom 1 stream with
    | error other => exact absurd ((documentsFrom_eq_error_iff).mp hfound) (hfaultless other)
    | ok found => exact ⟨found, rfl, (objectsOf_eq_error_iff hfound).mpr hinvalid⟩

theorem exists_objects_eq_ok_iff :
    (∃ read, objects stream = .ok read) ↔
      Faultless Undecodable 1 stream ∧ Faultless Invalid 1 stream := by
  have herror : (∃ read, objects stream = .ok read) ↔ ∀ error, objects stream ≠ .error error := by
    cases objects stream <;> simp
  simp only [herror, ne_eq, objects_eq_error_iff, faultless_iff, not_or, not_and]
  constructor
  · intro h
    have hdecoded : ∀ error, ¬FirstFault Undecodable 1 stream error := fun error => (h error).1
    exact ⟨hdecoded, fun error => (h error).2 hdecoded⟩
  · rintro ⟨hdecoded, hvalid⟩ error
    exact ⟨hdecoded error, fun _ => hvalid error⟩

theorem one_object_per_document {read : List Object} (h : objects stream = .ok read) :
    ∃ found, documents stream = .ok found ∧ Numbered 1 stream found ∧
      List.Forall₂ (fun document object => Object.ofNode document.node document.index = .ok object)
        found read ∧
      read.length = stream.countP Item.isPresent := by
  rw [objects, bind_eq_ok_iff] at h
  obtain ⟨found, hfound, hread⟩ := h
  have hnumbered : Numbered 1 stream found := numbered_of_documentsFrom hfound
  have hobjects := (objectsOf_eq_ok_iff).mp hread
  exact ⟨found, hfound, hnumbered, hobjects, hobjects.length_eq ▸ hnumbered.length⟩

private theorem position_of_blames {field : Field} {ref : ObjectRef} {value? : Option Node}
    (h : field.Blames ref value? error) : error.position = ref.index := by
  cases h <;> rfl

private theorem position_of_refused {node : Node} {index : Nat}
    (h : Object.Refused node index error) : error.position = index := by
  cases h with
  | root _ => rfl
  | field _ _ _ _ hblames => exact position_of_blames hblames

private theorem Undecodable.position {position : Nat} (h : Undecodable position item error) :
    error.position = position ∧ item.isPresent = true := by
  cases h with
  | text fault => exact ⟨rfl, rfl⟩
  | key hpresent _ => exact ⟨rfl, by simp [Item.isPresent, hpresent]⟩

private theorem Invalid.position {position : Nat} (h : Invalid position item error) :
    error.position = position ∧ item.isPresent = true := by
  obtain ⟨node, hnode, herror⟩ := h
  exact ⟨position_of_refused ((Object.ofNode_eq_error_iff).mp herror), isPresent_of_decodes hnode⟩

theorem position_of_objects (h : objects stream = .error error) :
    ∃ i item, stream[i]? = some item ∧ error.position = 1 + i ∧ item.isPresent = true := by
  rcases (objects_eq_error_iff).mp h with
    ⟨i, item, hi, hfault, -⟩ | ⟨-, i, item, hi, hfault, -⟩
  · exact ⟨i, item, hi, Undecodable.position hfault⟩
  · exact ⟨i, item, hi, Invalid.position hfault⟩

/-- A manifest is refused for its first document that cannot be decoded, else for its first document
that is no object, and never for a null one; otherwise it has an object for each document that is
not null, and the documents have increasing positions. -/
theorem objects_of_stream (stream : List Item) :
    (∀ error, documents stream = .error error ↔ FirstFault Undecodable 1 stream error) ∧
    (∀ error, objects stream = .error error ↔ FirstFault Undecodable 1 stream error ∨
      Faultless Undecodable 1 stream ∧ FirstFault Invalid 1 stream error) ∧
    (∀ error, objects stream = .error error →
      ∃ i item, stream[i]? = some item ∧ error.position = 1 + i ∧ item.isPresent = true) ∧
    ((∃ read, objects stream = .ok read) ↔
      Faultless Undecodable 1 stream ∧ Faultless Invalid 1 stream) ∧
    ∀ read, objects stream = .ok read → ∃ found, documents stream = .ok found ∧
      Numbered 1 stream found ∧
      List.Forall₂ (fun document object => Object.ofNode document.node document.index = .ok object)
        found read ∧
      read.length = stream.countP Item.isPresent :=
  ⟨fun _ => documentsFrom_eq_error_iff, fun _ => objects_eq_error_iff,
    fun _ => position_of_objects, exists_objects_eq_ok_iff, fun _ => one_object_per_document⟩

private def nameless : Item := .ok (.mapping [(.string "kind", .string "Pod")])

private def keyless : Item := .ok (.mapping [(.sequence [], .null)])

private def pod : Item :=
  .ok (.mapping [(.string "apiVersion", .string "v1"), (.string "kind", .string "Pod"),
    (.string "metadata", .mapping [(.string "name", .string "web")])])

/-- A key in the fourth document is told before the field that the second document does not have,
and the document of an object has the position that counts the null ones. -/
theorem objects_of_stream_pods :
    objects [.ok .null, nameless, pod, keyless] = .error (.badKey 4 .unsupportedSequence) ∧
    FirstFault Undecodable 1 [.ok .null, nameless, pod, keyless] (.badKey 4 .unsupportedSequence) ∧
    Faultless Undecodable 1 [.ok .null, nameless] ∧
    FirstFault Invalid 1 [.ok .null, nameless] (.missingField (.ofIndex 2) .apiVersion) ∧
    ∃ read, objects [.ok .null, pod] = .ok read ∧ read.length = 1 := by
  obtain ⟨hdocuments, hobjects, -, -, -⟩ := objects_of_stream [.ok .null, nameless, pod, keyless]
  obtain ⟨-, hinvalid, -, -, -⟩ := objects_of_stream [.ok .null, nameless]
  obtain ⟨-, -, -, -, hread⟩ := objects_of_stream [.ok .null, pod]
  have hkey := (hdocuments (.badKey 4 .unsupportedSequence)).mp rfl
  have hfield : Faultless Undecodable 1 [.ok .null, nameless] ∧
      FirstFault Invalid 1 [.ok .null, nameless] (.missingField (.ofIndex 2) .apiVersion) := by
    refine ((hinvalid _).mp rfl).resolve_left fun hfault => ?_
    have herror := (documentsFrom_eq_error_iff).mpr hfault
    cases herror
  have hpod : ∃ read, objects [.ok .null, pod] = .ok read := ⟨_, rfl⟩
  obtain ⟨read, hpod⟩ := hpod
  obtain ⟨_, _, _, _, hlength⟩ := hread read hpod
  exact ⟨(hobjects _).mpr (.inl hkey), hkey, hfield.1, hfield.2, read, hpod, hlength⟩

end Manifest
end ManifestDiff
