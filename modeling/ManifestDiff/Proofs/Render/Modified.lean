import ManifestDiff.Proofs.Diff.Pieces
import ManifestDiff.Proofs.Node.RoundTrip
import ManifestDiff.Render.Sink
/-!
# Modified values in JSON

A value that is replaced as a whole and its replacement differ in their kinds, in their lengths or as
scalars, and their JSON texts differ with them. Only null, NaN and the infinities are written alike.
-/
namespace ManifestDiff

namespace IdentityRule

variable {rule : IdentityRule} {path place : Path} {a b old new : Node} {key : Option String}

theorem normal_of_child? {segment : Segment} {a v : Node} (ha : a.Normal)
    (h : rule.child? segment a = some v) : v.Normal := by
  cases child_of_child? h with
  | entry hv =>
    cases ha with | mapping _ hentries =>
    exact hentries _ (Keyed.mem_of_find? hv)
  | item hv =>
    cases ha with | list hitems =>
    exact hitems v (List.mem_of_getElem? hv)
  | element _ hv =>
    cases ha with | list hitems =>
    exact hitems v (find?_eq_some hv).1

/-- The values of a modification are not equivalent and cannot be compared piece by piece. -/
structure Replaced (rule : IdentityRule) (old new : Node) : Prop where
  normal : old.Normal ∧ new.Normal
  differ : rule.equivalent old new = false
  whole : rule.segments? old new = none

theorem replaced_of_mem_diff (ha : a.Normal) (hb : b.Normal)
    (h : .modified place key old new ∈ rule.diff path a b) : rule.Replaced old new := by
  refine diff_induct (P := fun _ a b events => a.Normal → b.Normal →
    .modified place key old new ∈ events → rule.Replaced old new) ?silent ?replaced ?pieces
      path a b ha hb h
  case silent => exact fun _ _ _ _ _ _ h => nomatch h
  case replaced =>
    intro path a b hdiffer hwhole ha hb h
    cases List.mem_singleton.mp h
    exact ⟨⟨ha, hb⟩, hdiffer, hwhole⟩
  case pieces =>
    intro path a b segments _ _ ih ha hb h
    obtain ⟨segment, -, hpiece⟩ := List.mem_flatMap.mp h
    revert hpiece
    apply pieceEvents_cases (P := fun events => .modified place key old new ∈ events →
      rule.Replaced old new)
    case silent => exact nofun
    case addition =>
      intro w _ _ hmem
      cases segment <;> cases List.mem_singleton.mp hmem
    case removal =>
      intro v _ _ hmem
      cases segment <;> cases List.mem_singleton.mp hmem
    case nested =>
      intro v w hv hw _ hmem
      rcases List.mem_cons.mp hmem with heq | hmem
      · cases heq
      · exact ih segment v w hv hw (normal_of_child? ha hv) (normal_of_child? hb hw) hmem

end IdentityRule

/-- JSON has no text for the value but that of null. -/
def Scalar.WrittenAsNull : Scalar → Prop
  | .null => True
  | .float x => x.isFinite = false
  | _ => False

def Node.WrittenAsNull : Node → Prop
  | .scalar value => value.WrittenAsNull
  | _ => False

theorem Scalar.toJson_eq_null_iff {s : Scalar} : s.toJson = .null ↔ s.WrittenAsNull := by
  cases s with
  | float x => cases hx : x.isFinite <;> simp [toJson, WrittenAsNull, hx]
  | _ => simp [toJson, WrittenAsNull]

theorem Scalar.eq_of_toJson {s t : Scalar} (hs : s.Normal) (ht : t.Normal)
    (h : s.toJson = t.toJson) (hnull : ¬s.WrittenAsNull) : s = t := by
  have hfinite {u : Scalar} (hu : ¬u.WrittenAsNull) : (Node.scalar u).AllFinite := by
    apply Node.AllFinite.scalar
    rintro x rfl
    simpa [WrittenAsNull] using hu
  have hnull' : ¬t.WrittenAsNull := by
    rwa [← toJson_eq_null_iff, ← h, toJson_eq_null_iff]
  have hback := Node.ofJson_toJson (.scalar hs) (hfinite hnull)
  rw [Node.toJson, h, ← Node.toJson, Node.ofJson_toJson (.scalar ht) (hfinite hnull')] at hback
  exact (Node.scalar.inj hback).symm

theorem Node.toJson_eq_null_iff {node : Node} : node.toJson = .null ↔ node.WrittenAsNull := by
  cases node with
  | mapping entries => simp [toJson, WrittenAsNull]
  | list items => simp [toJson, WrittenAsNull]
  | scalar s => exact Scalar.toJson_eq_null_iff

private def kindOf : Json.Value → Node.Kind
  | .object _ => .mapping
  | .array _ => .list
  | _ => .scalar

private theorem kindOf_toJson (node : Node) : kindOf node.toJson = node.kind := by
  cases node with
  | mapping entries => rfl
  | list items => rfl
  | scalar s =>
    cases s with
    | float x =>
      rw [Node.toJson, Scalar.toJson]
      split <;> rfl
    | _ => rfl

theorem Node.kind_eq_of_toJson {v w : Node} (h : v.toJson = w.toJson) : v.kind = w.kind := by
  rw [← kindOf_toJson, h, kindOf_toJson]

namespace IdentityRule.Replaced

variable {rule : IdentityRule} {old new : Node}

private theorem writtenAsNull_of_toJson (h : rule.Replaced old new)
    (heq : old.toJson = new.toJson) : old.WrittenAsNull := by
  have hdiffer := h.differ
  have hwhole := h.whole
  obtain ⟨hold, hnew⟩ := h.normal
  have hkind := Node.kind_eq_of_toJson heq
  cases old with
  | mapping xs =>
    cases new <;> cases hkind
    cases hwhole
  | list xs =>
    cases new with
    | mapping ys => cases hkind
    | list ys =>
      -- lists are replaced only where their lengths differ
      rw [Node.toJson_list, Node.toJson_list, Json.Value.array.injEq] at heq
      have hlength : xs.length = ys.length := by simpa using congrArg List.length heq
      rw [segments?, if_pos hlength] at hwhole
      split at hwhole <;> cases hwhole
    | scalar t => cases hkind
  | scalar s =>
    cases new with
    | mapping ys => cases hkind
    | list ys => cases hkind
    | scalar t =>
      by_contra hnull
      rw [Scalar.eq_of_toJson (Node.normal_scalar_iff.mp hold) (Node.normal_scalar_iff.mp hnew) heq
        hnull, equivalent, Scalar.equal_refl] at hdiffer
      cases hdiffer

/-- Of two values that replace each other, only those written as null are written alike. -/
theorem toJson_eq_iff (h : rule.Replaced old new) :
    old.toJson = new.toJson ↔ old.WrittenAsNull ∧ new.WrittenAsNull := by
  constructor
  · intro heq
    have hold := h.writtenAsNull_of_toJson heq
    exact ⟨hold, (Node.toJson_eq_null_iff).mp (heq ▸ (Node.toJson_eq_null_iff).mpr hold)⟩
  · rintro ⟨hold, hnew⟩
    rw [(Node.toJson_eq_null_iff).mpr hold, (Node.toJson_eq_null_iff).mpr hnew]

end IdentityRule.Replaced

namespace JsonReport

private theorem textMembers_append (front : List (String × Json.Value))
    {last : List (String × Json.Value)} (h : last ≠ []) :
    Json.Value.textMembers (front ++ last) = String.join (front.map fun member =>
      Json.quote member.1 ++ ":" ++ member.2.text ++ ",") ++ Json.Value.textMembers last := by
  induction front with
  | nil => simp
  | cons member front ih =>
    obtain ⟨name, value⟩ := member
    rw [List.cons_append, Json.Value.textMembers, ih, List.map_cons, String.join_cons]
    · simp only [String.append_assoc]
    · simp [h]

theorem text_modified (place : Path) (key : Option String) :
    ∃ start, ∀ old new, text (.modified place key old new) =
      start ++ "\"old\":" ++ old.toJson.text ++ ",\"new\":" ++ new.toJson.text ++ "\x7d" := by
  have hold : Json.quote "old" ++ ":" = "\"old\":" := by decide
  have hnew : "," ++ (Json.quote "new" ++ ":") = ",\"new\":" := by decide
  have hlast (old new : Node) : Json.Value.textMembers [("old", old.toJson), ("new", new.toJson)] =
      "\"old\":" ++ old.toJson.text ++ ",\"new\":" ++ new.toJson.text := by
    rw [← hold, ← hnew]
    simp only [Json.Value.textMembers, String.append_assoc]
  obtain ⟨front, hfront⟩ : ∃ front, ∀ old new, toJson (.modified place key old new) =
      .object (front ++ [("old", old.toJson), ("new", new.toJson)]) := ⟨_, fun _ _ => rfl⟩
  refine ⟨"\x7b" ++ String.join (front.map fun member =>
    Json.quote member.1 ++ ":" ++ member.2.text ++ ","), fun old new => ?_⟩
  rw [text, hfront, Json.Value.text, textMembers_append front (List.cons_ne_nil _ _), hlast]
  simp only [String.append_assoc]

end JsonReport

/-- A modification is written with the texts of both values at the end of its line, and the texts differ
unless both values are written as null. -/
theorem modified_texts_eq_iff (rule : IdentityRule) (path : Path) {a b : Node} (ha : a.Decoded)
    (hb : b.Decoded) {place : Path} {key : Option String} {old new : Node}
    (h : .modified place key old new ∈ rule.diff path a b) :
    (∃ start, JsonReport.text (.modified place key old new) =
      start ++ "\"old\":" ++ old.toJson.text ++ ",\"new\":" ++ new.toJson.text ++ "\x7d") ∧
    (old.toJson.text = new.toJson.text ↔ old.WrittenAsNull ∧ new.WrittenAsNull) := by
  obtain ⟨start, htext⟩ := JsonReport.text_modified place key
  have hreplaced := IdentityRule.replaced_of_mem_diff ha.normal hb.normal h
  refine ⟨⟨start, htext old new⟩, ?_⟩
  rw [← hreplaced.toJson_eq_iff]
  exact ⟨Node.toJson_eq_of_text, congrArg Json.Value.text⟩

/-- A list of NaN is told from a longer one, though NaN is written as null. -/
theorem modified_texts_lists :
    (.modified [] none (.list [.scalar (.float .nan)]) (.list []) : Event) ∈
        IdentityRule.diff {} [] (.list [.scalar (.float .nan)]) (.list []) ∧
      (Node.list [.scalar (.float .nan)]).Decoded ∧ (Node.list []).Decoded ∧
      (Node.list [.scalar (.float .nan)]).toJson.text ≠ (Node.list []).toJson.text := by
  have hold : (Node.list [.scalar (.float .nan)]).Decoded :=
    .yaml (show Node.ofYaml (.sequence [.number (.float .nan)]) = _ from rfl)
  have hnew : (Node.list []).Decoded := .yaml (show Node.ofYaml (.sequence []) = _ from rfl)
  have hdiff : IdentityRule.diff {} [] (.list [.scalar (.float .nan)]) (.list []) =
      [.modified [] none (.list [.scalar (.float .nan)]) (.list [])] := rfl
  have hmem : (.modified [] none (.list [.scalar (.float .nan)]) (.list []) : Event) ∈
      IdentityRule.diff {} [] (.list [.scalar (.float .nan)]) (.list []) := by
    rw [hdiff]
    exact List.mem_singleton_self _
  refine ⟨hmem, hold, hnew, ?_⟩
  intro h
  exact ((modified_texts_eq_iff {} [] hold hnew hmem).2.mp h).1

/-- A NaN that becomes null is written as null that becomes null. -/
theorem modified_texts_nan :
    Node.ofYaml (.number (.float .nan)) = .ok (.scalar (.float .nan)) ∧
      Node.ofYaml .null = .ok .null ∧
      IdentityRule.diff {} [] (.scalar (.float .nan)) .null =
        [.modified [] none (.scalar (.float .nan)) .null] ∧
      (Node.scalar (.float .nan)).toJson.text = Node.null.toJson.text ∧
      JsonReport.text (.modified [] none (.scalar (.float .nan)) .null) =
        "\x7b\"event\":\"modified\",\"path\":\"\",\"old\":null,\"new\":null\x7d" :=
  ⟨rfl, rfl, rfl, rfl, by decide⟩

end ManifestDiff
