import ManifestDiff.Proofs.Diff.Lossless
import ManifestDiff.Proofs.Manifest.Validation
import ManifestDiff.Proofs.Report.Stream
/-!
# Objects that are paired

Two objects are compared with each other when they share a key, and the key is made of fields that
are compared as well. So a report never tells a change of the kind or of the name, and it tells one
of the namespace only when both namespaces count as none.
-/
namespace ManifestDiff

open Keyed

def Event.writtenKey? : Event → Option String
  | .modified _ key _ _ => key
  | _ => none

namespace IdentityRule

variable {rule : IdentityRule} {path : Path} {xs ys : List (String × Node)}

private theorem writtenKey?_pieceEvents {tainted : Bool} {segment : Segment}
    {v? w? : Option Node}
    (ih : ∀ v w, v? = some v → w? = some w → ∀ e ∈ rule.diff (path.child segment) v w,
      e.writtenKey? = none) :
    ∀ e ∈ rule.pieceEvents path tainted segment v? w?, e.writtenKey? = none := by
  refine pieceEvents_cases (P := fun events => ∀ e ∈ events, e.writtenKey? = none)
    ?silent ?addition ?removal ?nested
  case silent => exact List.forall_mem_nil _
  case addition =>
    intro w _ _
    rw [List.forall_mem_singleton]
    cases segment <;> rfl
  case removal =>
    intro v _ _
    rw [List.forall_mem_singleton]
    cases segment <;> rfl
  case nested =>
    intro v w hv hw _
    rw [List.forall_mem_cons]
    exact ⟨rfl, ih v w hv hw⟩

theorem writtenKey?_diff (path : Path) (a b : Node) :
    ∀ e ∈ rule.diff path a b, e.writtenKey? = none := by
  refine diff_induct (P := fun _ _ _ events => ∀ e ∈ events, e.writtenKey? = none)
    ?silent ?replaced ?pieces path a b
  case silent => exact fun _ _ _ _ => List.forall_mem_nil _
  case replaced =>
    intro path a b _ _
    rw [List.forall_mem_singleton]
    rfl
  case pieces =>
    intro path a b segments _ _ ih
    rw [List.forall_mem_flatMap]
    exact fun segment _ => writtenKey?_pieceEvents (ih segment)

theorem diff_mappings_below (path : Path) (xs ys : List (String × Node)) :
    ∀ e ∈ rule.diff path (.mapping xs) (.mapping ys),
      ∃ k : String, e.isUnder (path.child (.key k)) = true := by
  cases h : rule.equivalent (.mapping xs) (.mapping ys) with
  | true =>
    rw [diff_of_equivalent h]
    exact List.forall_mem_nil _
  | false =>
    rw [diff_of_pieces h rfl, List.forall_mem_flatMap, List.forall_mem_map]
    exact fun k _ e he => ⟨k, pieceEvents_below path _ (.key k) _ _ e he⟩

theorem not_isUnder_of_same {k : String} (h : Keyed.find? k xs = Keyed.find? k ys) :
    ∀ e ∈ rule.diff path (.mapping xs) (.mapping ys),
      e.isUnder (path.child (.key k)) = false := by
  cases hxy : rule.equivalent (.mapping xs) (.mapping ys) with
  | true =>
    rw [diff_of_equivalent hxy]
    exact List.forall_mem_nil _
  | false =>
    have hnone (hm : Segment.key k ∉ (Keyed.unionKeys xs ys).map Segment.key) :
        Keyed.find? k xs = none ∧ Keyed.find? k ys = none :=
      Keyed.find?_of_not_mem_unionKeys fun hk => hm (List.mem_map_of_mem hk)
    have hsilent : rule.pieceEvents path (lengthsDiffer (.mapping xs) (.mapping ys)) (.key k)
        (Keyed.find? k xs) (Keyed.find? k ys) = [] := by
      rw [pieceEvents_eq_nil_iff, h]
      cases Keyed.find? k ys with
      | none => exact .none
      | some v => exact .some (equivalent_of_equal v.equal_refl)
    have hfilter : (rule.diff path (.mapping xs) (.mapping ys)).filter
        (Event.isUnder (path.child (.key k))) = [] :=
      (filter_diff hxy rfl hnone).trans hsilent
    intro e he
    exact Bool.eq_false_iff.mpr (List.filter_eq_nil_iff.mp hfilter e he)

end IdentityRule

namespace Object

def HasDefaultNamespace (object : Object) : Prop :=
  find? "namespace" object.metadata = none ∨
    find? "namespace" object.metadata = some (.string "") ∨
    find? "namespace" object.metadata = some (.string "default")

variable {a b object : Object}

theorem IsDecoded.find?_name (h : object.IsDecoded) :
    find? "name" object.metadata = some (.string object.name) := by
  obtain ⟨node, index, hread⟩ := h
  obtain ⟨_, _, _, _, _, ⟨name, hname, _⟩, _⟩ := (ofNode_eq_ok_iff).mp hread
  rw [hname, Object.name, hname]
  rfl

theorem IsDecoded.find?_namespace (h : object.IsDecoded) :
    find? "namespace" object.metadata = object.namespaceName?.map Node.string := by
  obtain ⟨node, index, hread⟩ := h
  obtain ⟨_, _, _, _, _, _, hns, _⟩ := (ofNode_eq_ok_iff).mp hread
  rcases (accepts_namespaceName_iff).mpr hns with hnone | ⟨s, hs⟩
  · rw [namespaceName?, hnone]
    rfl
  · rw [namespaceName?, hs]
    rfl

theorem IsDecoded.hasDefaultNamespace_iff (h : object.IsDecoded) :
    object.HasDefaultNamespace ↔ ObjectKey.IsDefaultNamespace object.namespaceName? := by
  rw [HasDefaultNamespace, ObjectKey.IsDefaultNamespace, h.find?_namespace]
  cases object.namespaceName? <;> simp [Node.string]

theorem find?_name_eq_of_key_eq (ha : a.IsDecoded) (hb : b.IsDecoded) (h : a.key = b.key) :
    find? "name" a.metadata = find? "name" b.metadata := by
  have hname : a.name = b.name := congrArg ObjectKey.name h
  rw [ha.find?_name, hb.find?_name, hname]

/-- The namespaces of two objects with one key are the same, unless both count as none. -/
theorem find?_namespace_eq_of_key_eq (ha : a.IsDecoded) (hb : b.IsDecoded)
    (h : a.key = b.key) :
    find? "namespace" a.metadata = find? "namespace" b.metadata ∨
      a.HasDefaultNamespace ∧ b.HasDefaultNamespace := by
  rw [ha.hasDefaultNamespace_iff, hb.hasDefaultNamespace_iff, ha.find?_namespace,
    hb.find?_namespace]
  have hns : ObjectKey.normalNamespace a.namespaceName? =
      ObjectKey.normalNamespace b.namespaceName? := congrArg ObjectKey.namespaceName h
  rcases (ObjectKey.normalNamespace_eq_iff).mp hns with hsame | hdefault
  · exact .inl (congrArg _ hsame)
  · exact .inr hdefault

end Object

namespace Report

/-- What the block of two objects with one key says about the fields that the key is made of. -/
structure Paired (rule : IdentityRule) (a b : Object) (block : List Event) : Prop where
  kind : block.filter (Event.isUnder [.key "kind"]) =
    [.unchanged [.key "kind"] (.string a.kind)]
  /-- Of the events that are written with a key, none is about another field. -/
  written : ∀ e ∈ block, ∀ name, e.writtenKey? = some name →
    name = "apiVersion" ∧ e.path? = some [.key "apiVersion"]
  /-- The metadata are listed as they are or compared as two mappings. -/
  compared : block.filter (Event.isUnder [.key "metadata"]) =
      [.unchanged [.key "metadata"] (.mapping a.metadata)] ∨
    block.filter (Event.isUnder [.key "metadata"]) =
      .sectionHeader [.key "metadata"] ::
        rule.diff [.key "metadata"] (.mapping a.metadata) (.mapping b.metadata)
  metadata : ∀ key x y, .modified [.key "metadata"] key x y ∉ block
  name : ∀ e ∈ block, e.isUnder [.key "metadata", .key "name"] = false
  namespaceName : ∀ e ∈ block, e.isUnder [.key "metadata", .key "namespace"] = true →
    a.HasDefaultNamespace ∧ b.HasDefaultNamespace

variable {rule : IdentityRule} {old new : List Object} {a b : Object}

private theorem writtenKey?_sectionEvents (path : Path) (x y : Option Node) :
    ∀ e ∈ sectionEvents rule path x y, e.writtenKey? = none := by
  rw [sectionEvents]
  cases x.or y with
  | none => exact List.forall_mem_nil _
  | some present =>
    dsimp only
    split
    · rw [List.forall_mem_singleton]
      rfl
    · rw [List.forall_mem_cons]
      exact ⟨rfl, IdentityRule.writtenKey?_diff path _ _⟩

private theorem metadataEvents_cases (rule : IdentityRule) (a b : Object) :
    partEvents rule a b .metadata = [.unchanged [.key "metadata"] (.mapping a.metadata)] ∨
      partEvents rule a b .metadata = .sectionHeader [.key "metadata"] ::
        rule.diff [.key "metadata"] (.mapping a.metadata) (.mapping b.metadata) := by
  rw [partEvents, sectionEvents, Option.or_some]
  dsimp only
  split
  · exact .inl rfl
  · exact .inr rfl

private theorem mem_diff_of_isUnder {k : String} {e : Event} (he : e ∈ objectEvents rule a b)
    (hunder : e.isUnder [.key "metadata", .key k] = true) :
    e ∈ rule.diff [.key "metadata"] (.mapping a.metadata) (.mapping b.metadata) := by
  have hmetadata : e ∈ partEvents rule a b .metadata := by
    rw [← filter_objectEvents, List.mem_filter]
    have hchild : e.isUnder (Path.child [.key "metadata"] (.key k)) = true := hunder
    exact ⟨he, Event.isUnder_of_child hchild⟩
  have hwhole : ∀ f : Event, f.path? = some [.key "metadata"] → e ≠ f := by
    rintro f hf rfl
    obtain ⟨rest, hrest⟩ := (Event.isUnder_iff).mp hunder
    rw [hf] at hrest
    cases hrest
  rcases metadataEvents_cases rule a b with h | h
  · rw [h, List.mem_singleton] at hmetadata
    exact absurd hmetadata (hwhole _ rfl)
  · rw [h, List.mem_cons] at hmetadata
    exact hmetadata.resolve_left (hwhole _ rfl)

theorem objectEvents_paired (ha : a.IsDecoded) (hb : b.IsDecoded) (h : a.key = b.key) :
    Paired rule a b (objectEvents rule a b) := by
  have hkind : a.kind = b.kind := Object.kind_eq_of_key_eq h
  have hcompared := metadataEvents_cases rule a b
  rw [← filter_objectEvents] at hcompared
  refine ⟨?kind, ?written, hcompared, ?metadata, ?name, ?namespaceName⟩
  case kind =>
    refine (filter_objectEvents rule a b .kind).trans ?_
    rw [partEvents, fieldEvents, if_pos hkind]
    rfl
  case written =>
    intro e he name hname
    obtain ⟨part, _, he⟩ := List.mem_flatMap.mp he
    cases part with
    | apiVersion =>
      rw [partEvents, fieldEvents] at he
      split at he
      · rw [List.mem_singleton.mp he] at hname
        cases hname
      · rw [List.mem_singleton.mp he] at hname ⊢
        cases hname
        exact ⟨rfl, rfl⟩
    | kind =>
      rw [partEvents, fieldEvents, if_pos hkind, List.mem_singleton] at he
      rw [he] at hname
      cases hname
    | metadata | data | spec =>
      rw [partEvents] at he
      rw [writtenKey?_sectionEvents _ _ _ e he] at hname
      cases hname
  case metadata =>
    intro key x y he
    have hm : .modified [.key "metadata"] key x y ∈
        (objectEvents rule a b).filter (Event.isUnder Part.metadata.path) :=
      List.mem_filter.mpr ⟨he, rfl⟩
    rcases hcompared with hparts | hparts
    · rw [hparts, List.mem_singleton] at hm
      cases hm
    · rw [hparts, List.mem_cons] at hm
      rcases hm with heq | hm
      · cases heq
      · obtain ⟨k, hunder⟩ := IdentityRule.diff_mappings_below _ _ _ _ hm
        obtain ⟨rest, hrest⟩ := (Event.isUnder_iff).mp hunder
        cases hrest
  case name =>
    intro e he
    rw [Bool.eq_false_iff]
    intro hunder
    have hsame := Object.find?_name_eq_of_key_eq ha hb h
    exact Bool.eq_false_iff.mp
      (IdentityRule.not_isUnder_of_same hsame e (mem_diff_of_isUnder he hunder)) hunder
  case namespaceName =>
    intro e he hunder
    refine (Object.find?_namespace_eq_of_key_eq ha hb h).resolve_left fun hsame => ?_
    exact Bool.eq_false_iff.mp
      (IdentityRule.not_isUnder_of_same hsame e (mem_diff_of_isUnder he hunder)) hunder

/-- In a report on two collections of objects that were read, every event about something in an
object stands in the block of a pair, and the block says of the fields of the key what it may. -/
theorem events_paired (rule : IdentityRule) (old new : List Object)
    (hold : ∀ object ∈ old, object.IsDecoded) (hnew : ∀ object ∈ new, object.IsDecoded) :
    (∀ e ∈ events rule old new, e.isInside = true →
      ∃ key block, (key, block) ∈ blocks (events rule old new) ∧ e ∈ block) ∧
    ∀ key block, (key, block) ∈ blocks (events rule old new) → ∃ a b,
      kept? old key = some a ∧ kept? new key = some b ∧ Paired rule a b block := by
  refine ⟨fun e => exists_block_of_isInside, ?_⟩
  intro key block hm
  obtain ⟨a, b, ha, hb, _, rfl⟩ := (mem_blocks_events).mp hm
  obtain ⟨hma, hkey⟩ := mem_of_kept? ha
  obtain ⟨hmb, hkey'⟩ := mem_of_kept? hb
  exact ⟨a, b, ha, hb, objectEvents_paired (hold a hma) (hnew b hmb) (hkey.trans hkey'.symm)⟩

private def secret (ns : String) : Object where
  apiVersion := "v1"
  kind := "Secret"
  metadata := [("name", .string "token"), ("namespace", .string ns)]
  data := none
  spec := none

/-- The namespaces of the two secrets differ and count as none, so they share a key and the report
tells the change. -/
theorem events_paired_secrets :
    (∀ object ∈ [secret ""], object.IsDecoded) ∧
      (∀ object ∈ [secret "default"], object.IsDecoded) ∧
      ∃ block, (⟨"Secret", none, "token"⟩, block) ∈
          blocks (events {} [secret ""] [secret "default"]) ∧
        Paired {} (secret "") (secret "default") block ∧
        ∃ e ∈ block, e.isUnder [.key "metadata", .key "namespace"] = true := by
  have hdecoded (ns : String) : (secret ns).IsDecoded := by
    let json : Json.Value := .object [("apiVersion", .string "v1"), ("kind", .string "Secret"),
      ("metadata", .object [("name", .string "token"), ("namespace", .string ns)])]
    exact ⟨⟨.ofJson json, Node.ofJson_wellFormed json⟩, 1, rfl⟩
  have hold : ∀ object ∈ [secret ""], object.IsDecoded :=
    List.forall_mem_singleton.mpr (hdecoded "")
  have hnew : ∀ object ∈ [secret "default"], object.IsDecoded :=
    List.forall_mem_singleton.mpr (hdecoded "default")
  refine ⟨hold, hnew, _, List.mem_singleton_self _, ?_, ?_⟩
  · obtain ⟨a, b, ha, hb, hpaired⟩ := (events_paired {} _ _ hold hnew).2 _ _
      (List.mem_singleton_self _)
    cases ha
    cases hb
    exact hpaired
  · decide

end Report

end ManifestDiff
