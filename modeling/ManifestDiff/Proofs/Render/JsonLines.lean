import ManifestDiff.Proofs.Node.Equality
import ManifestDiff.Proofs.Node.RoundTrip
import ManifestDiff.Proofs.Render.Delivery
import Mathlib.Data.List.Forall2
/-!
# JSON lines tell the events

In JSON lines each event is an object on a line of its own, so the bytes that are written fall apart
into the lines again. A line tells its event, up to what is not written: of a path there is only
the display. Floats are left out, and so are object keys whose parts have a slash in them.
-/
namespace ManifestDiff

namespace ObjectKey

/-- No part of the key has the character that the parts are joined with. -/
structure SlashFree (key : ObjectKey) : Prop where
  kind : '/' ∉ key.kind.toList
  namespaceName : ∀ ns ∈ key.namespaceName, '/' ∉ ns.toList
  name : '/' ∉ key.name.toList

private def parts (key : ObjectKey) : List (List Char) :=
  match key.namespaceName with
  | some ns => [key.kind.toList, ns.toList, key.name.toList]
  | none => [key.kind.toList, key.name.toList]

private theorem toList_display (key : ObjectKey) :
    key.display.toList = ['/'].intercalate key.parts := by
  obtain ⟨kind, ns?, name⟩ := key
  cases ns? <;> simp [display, parts, List.intercalate]

private theorem parts_injective : Function.Injective parts := by
  rintro ⟨kind, ns?, name⟩ ⟨kind', ns'?, name'⟩ h
  cases ns? <;> cases ns'? <;> simp_all [parts, String.toList_inj]

private theorem SlashFree.splitOn_display {key : ObjectKey} (h : key.SlashFree) :
    key.display.toList.splitOn '/' = key.parts := by
  have hparts : ∀ part ∈ key.parts, '/' ∉ part := by
    obtain ⟨hkind, hns, hname⟩ := h
    rw [parts]
    split
    next ns heq => simp [hkind, hname, hns ns heq]
    next => simp [hkind, hname]
  rw [toList_display]
  apply List.splitOn_intercalate _ hparts
  rw [parts]
  split <;> simp

theorem SlashFree.eq_of_display {key other : ObjectKey} (h : key.SlashFree) (h' : other.SlashFree)
    (heq : key.display = other.display) : key = other := by
  apply parts_injective
  rw [← h.splitOn_display, heq, h'.splitOn_display]

end ObjectKey

namespace Event

def values : Event → List Node
  | .unchanged _ value | .added _ value | .removed _ value | .structuralAddition _ _ value _
  | .structuralRemoval _ _ value _ => [value]
  | .modified _ _ old new => [old, new]
  | .objectRemoved _ | .objectAdded _ | .objectHeader _ | .sectionHeader _ | .nested _ => []

def object? : Event → Option ObjectKey
  | .objectRemoved object | .objectAdded object | .objectHeader object => some object
  | _ => none

/-- An event that its line tells: the values are decoded and without floats, and the parts of the
object key can be told from each other. -/
structure Legible (event : Event) : Prop where
  decoded : ∀ value ∈ event.values, value.Decoded
  floatFree : ∀ value ∈ event.values, value.FloatFree
  slashFree : ∀ object ∈ event.object?, object.SlashFree

/-- Events of one kind that agree in all their parts: the paths in how they are displayed, and the
values up to equality. -/
def Alike : Event → Event → Prop
  | .objectRemoved k, .objectRemoved l | .objectAdded k, .objectAdded l
  | .objectHeader k, .objectHeader l => k = l
  | .sectionHeader p, .sectionHeader q | .nested p, .nested q => p.display = q.display
  | .unchanged p v, .unchanged q w | .added p v, .added q w | .removed p v, .removed q w =>
    p.display = q.display ∧ v.equal w = true
  | .modified p k v w, .modified q l v' w' =>
    p.display = q.display ∧ k = l ∧ v.equal v' = true ∧ w.equal w' = true
  | .structuralAddition p id v t, .structuralAddition q id' w t'
  | .structuralRemoval p id v t, .structuralRemoval q id' w t' =>
    p.display = q.display ∧ id = id' ∧ v.equal w = true ∧ t = t'
  | _, _ => False

end Event

namespace JsonReport

theorem exists_toJson (event : Event) : ∃ members, toJson event = .object members := by
  cases event <;> exact ⟨_, rfl⟩

private theorem exact_valueEvent (name : String) (path : Path) (value : Node) :
    (valueEvent name path value).Exact := by
  refine .object ?_
  simp only [List.forall_mem_cons, pathMember]
  exact ⟨.string _, .string _, value.exact_toJson, nofun⟩

private theorem exact_structuralEvent (name : String) (path : Path) (identity : String)
    (value : Node) (tainted : Bool) : (structuralEvent name path identity value tainted).Exact := by
  refine .object ?_
  simp only [List.forall_mem_cons, pathMember]
  exact ⟨.string _, .string _, .string _, value.exact_toJson, .bool _, nofun⟩

theorem exact_toJson (event : Event) : (toJson event).Exact := by
  cases event with
  | objectRemoved object | objectAdded object | objectHeader object =>
    refine .object ?_
    simp only [List.forall_mem_cons]
    exact ⟨.string _, .string _, nofun⟩
  | sectionHeader path | nested path =>
    refine .object ?_
    simp only [List.forall_mem_cons, pathMember]
    exact ⟨.string _, .string _, nofun⟩
  | unchanged path value | added path value | removed path value =>
    exact exact_valueEvent _ path value
  | modified path key old new =>
    have hold := old.exact_toJson
    have hnew := new.exact_toJson
    refine .object ?_
    cases key <;> simp only [List.forall_mem_append, List.forall_mem_cons, pathMember]
    case none => exact ⟨⟨⟨.string _, .string _, nofun⟩, nofun⟩, hold, hnew, nofun⟩
    case some key =>
      exact ⟨⟨⟨.string _, .string _, nofun⟩, .string _, nofun⟩, hold, hnew, nofun⟩
  | structuralAddition path identity value tainted
  | structuralRemoval path identity value tainted =>
    exact exact_structuralEvent _ path identity value tainted

section

variable {e f : Event}

private theorem eq_of_objectEvent (he : e.Legible) (hf : f.Legible) {name : String}
    {k l : ObjectKey} (hk : k ∈ e.object?) (hl : l ∈ f.object?)
    (h : objectEvent name k = objectEvent name l) : k = l := by
  apply (he.slashFree k hk).eq_of_display (hf.slashFree l hl)
  simpa [objectEvent] using h

private theorem display_of_headerEvent {name : String} {p q : Path}
    (h : headerEvent name p = headerEvent name q) : p.display = q.display := by
  simpa [headerEvent, pathMember] using h

private theorem equal_of_toJson (he : e.Legible) (hf : f.Legible) {v w : Node}
    (hv : v ∈ e.values) (hw : w ∈ f.values) (h : v.toJson = w.toJson) : v.equal w = true := by
  rw [Node.eq_of_toJson (he.decoded v hv) (hf.decoded w hw) (he.floatFree v hv).allFinite
    (hf.floatFree w hw).allFinite h]
  exact w.equal_refl

private theorem equal_of_valueEvent (he : e.Legible) (hf : f.Legible) {name : String} {p q : Path}
    {v w : Node} (hv : v ∈ e.values) (hw : w ∈ f.values)
    (h : valueEvent name p v = valueEvent name q w) : p.display = q.display ∧ v.equal w = true := by
  have hparts : p.display = q.display ∧ v.toJson = w.toJson := by
    simpa [valueEvent, pathMember] using h
  exact hparts.imp_right (equal_of_toJson he hf hv hw)

private theorem equal_of_structuralEvent (he : e.Legible) (hf : f.Legible) {name : String}
    {p q : Path} {id id' : String} {v w : Node} {t t' : Bool} (hv : v ∈ e.values)
    (hw : w ∈ f.values) (h : structuralEvent name p id v t = structuralEvent name q id' w t') :
    p.display = q.display ∧ id = id' ∧ v.equal w = true ∧ t = t' := by
  obtain ⟨hpath, hid, hvalue, htainted⟩ :
      p.display = q.display ∧ id = id' ∧ v.toJson = w.toJson ∧ t = t' := by
    simpa [structuralEvent, pathMember] using h
  exact ⟨hpath, hid, equal_of_toJson he hf hv hw hvalue, htainted⟩

private theorem equal_of_modified {p q : Path} {k l : Option String} {v v' w w' : Node}
    (he : (Event.modified p k v w).Legible) (hf : (Event.modified q l v' w').Legible)
    (h : toJson (.modified p k v w) = toJson (.modified q l v' w')) :
    p.display = q.display ∧ k = l ∧ v.equal v' = true ∧ w.equal w' = true := by
  obtain ⟨hpath, hkey, hold, hnew⟩ :
      p.display = q.display ∧ k = l ∧ v.toJson = v'.toJson ∧ w.toJson = w'.toJson := by
    cases k <;> cases l <;> simp_all [toJson, pathMember]
  have hsecond (a b : Node) : b ∈ [a, b] := List.mem_cons_of_mem _ List.mem_cons_self
  exact ⟨hpath, hkey, equal_of_toJson he hf List.mem_cons_self List.mem_cons_self hold,
    equal_of_toJson he hf (hsecond v w) (hsecond v' w') hnew⟩

theorem alike_of_toJson (he : e.Legible) (hf : f.Legible) (h : toJson e = toJson f) :
    e.Alike f := by
  cases e <;> cases f
  case objectRemoved.objectRemoved | objectAdded.objectAdded | objectHeader.objectHeader =>
    exact eq_of_objectEvent he hf rfl rfl h
  case sectionHeader.sectionHeader | nested.nested => exact display_of_headerEvent h
  case unchanged.unchanged | added.added | removed.removed =>
    exact equal_of_valueEvent he hf List.mem_cons_self List.mem_cons_self h
  case modified.modified => exact equal_of_modified he hf h
  case structuralAddition.structuralAddition | structuralRemoval.structuralRemoval =>
    exact equal_of_structuralEvent he hf List.mem_cons_self List.mem_cons_self h
  -- events of two kinds have two names
  all_goals
    simp [toJson, objectEvent, headerEvent, valueEvent, structuralEvent, pathMember] at h

theorem alike_of_text (he : e.Legible) (hf : f.Legible) (h : text e = text f) : e.Alike f :=
  alike_of_toJson he hf ((exact_toJson e).eq_of_text (exact_toJson f) h)

end

def lineBytes (event : Event) : List UInt8 := (text event).toUTF8.data.toList

theorem lineFeed_not_mem_lineBytes (event : Event) : 10 ∉ lineBytes event :=
  fun h => Renderer.lineFeed_not_mem_text event (Array.mem_toList_iff.mp h)

theorem text_eq_of_lineBytes {e f : Event} (h : lineBytes e = lineBytes f) : text e = text f := by
  apply String.toByteArray_inj.mp
  exact ByteArray.ext (Array.toList_inj.mp h)

end JsonReport

namespace Renderer

private theorem splitOn_lines {lines : List (List UInt8)} (h : ∀ line ∈ lines, 10 ∉ line) :
    (lines.flatMap (· ++ [10])).splitOn 10 = lines ++ [[]] := by
  induction lines with
  | nil => exact List.splitOn_nil 10
  | cons line lines ih =>
    obtain ⟨hline, hlines⟩ := List.forall_mem_cons.mp h
    rw [List.flatMap_cons, List.append_assoc]
    calc (line ++ 10 :: lines.flatMap (· ++ [10])).splitOn 10
      _ = line.splitOn 10 ++ (lines.flatMap (· ++ [10])).splitOn 10 :=
        @List.splitOnP_append_cons _ (· == 10) line _ 10 rfl
      _ = line :: lines ++ [[]] := by
        rw [List.splitOn_eq_singleton hline, ih hlines]
        rfl

private theorem toList_bytes (steps : List Step) :
    (jsonLines.bytes steps).data.toList =
      ((steps.filterMap Step.event?).map JsonReport.lineBytes).flatMap (· ++ [10]) := by
  rw [bytes_eq_join, funext jsonLines_output]
  induction steps.filterMap Step.event? with
  | nil => rfl
  | cons e events ih =>
    have hlineFeed : "\n".toUTF8.data.toList = [10] := by decide
    simp only [List.map_cons, String.join_cons, List.flatMap_cons, ← ih, JsonReport.lineBytes]
    simp only [String.toUTF8_eq_toByteArray] at hlineFeed ⊢
    rw [String.toByteArray_append, String.toByteArray_append, ByteArray.data_append,
      ByteArray.data_append, Array.toList_append, Array.toList_append, hlineFeed]

theorem splitOn_bytes (steps : List Step) :
    (jsonLines.bytes steps).data.toList.splitOn 10 =
      (steps.filterMap Step.event?).map JsonReport.lineBytes ++ [[]] := by
  rw [toList_bytes, splitOn_lines]
  exact List.forall_mem_map.mpr fun e _ => JsonReport.lineFeed_not_mem_lineBytes e

theorem lineBytes_eq_of_bytes {steps steps' : List Step}
    (h : jsonLines.bytes steps = jsonLines.bytes steps') :
    (steps.filterMap Step.event?).map JsonReport.lineBytes =
      (steps'.filterMap Step.event?).map JsonReport.lineBytes := by
  have hsplit := splitOn_bytes steps
  rw [h, splitOn_bytes] at hsplit
  exact (List.append_cancel_right hsplit).symm

private theorem alike_of_lineBytes {events events' : List Event} (he : ∀ e ∈ events, e.Legible)
    (he' : ∀ e ∈ events', e.Legible)
    (h : events.map JsonReport.lineBytes = events'.map JsonReport.lineBytes) :
    List.Forall₂ Event.Alike events events' := by
  induction events generalizing events' with
  | nil =>
    rw [List.map_eq_nil_iff.mp h.symm]
    exact .nil
  | cons e events ih =>
    cases events' with
    | nil => exact nomatch h
    | cons f events' =>
      obtain ⟨hline, hlines⟩ := List.cons.inj h
      obtain ⟨heHead, heTail⟩ := List.forall_mem_cons.mp he
      obtain ⟨hfHead, hfTail⟩ := List.forall_mem_cons.mp he'
      exact .cons (JsonReport.alike_of_text heHead hfHead (JsonReport.text_eq_of_lineBytes hline))
        (ih heTail hfTail hlines)

/-- In JSON lines each event is one object on a line of its own, and outputs with the same bytes
tell of the same events. -/
theorem jsonLines_determine_events :
    (∀ steps, (jsonLines.bytes steps).data.toList.splitOn 10 =
        (steps.filterMap Step.event?).map JsonReport.lineBytes ++ [[]]) ∧
      (∀ e, 10 ∉ JsonReport.lineBytes e ∧
        ∃ members, JsonReport.text e = (Json.Value.object members).text) ∧
      ∀ steps steps', (∀ e ∈ steps.filterMap Step.event?, e.Legible) →
        (∀ e ∈ steps'.filterMap Step.event?, e.Legible) →
        jsonLines.bytes steps = jsonLines.bytes steps' →
        List.Forall₂ Event.Alike (steps.filterMap Step.event?) (steps'.filterMap Step.event?) := by
  refine ⟨splitOn_bytes, ?_, ?_⟩
  · intro e
    obtain ⟨members, h⟩ := JsonReport.exists_toJson e
    exact ⟨JsonReport.lineFeed_not_mem_lineBytes e, members, congrArg Json.Value.text h⟩
  · intro steps steps' he he' h
    exact alike_of_lineBytes he he' (lineBytes_eq_of_bytes h)

private def changedEntry (path : Path) : List Step :=
  [.event (.objectHeader ⟨"ConfigMap", some "web", "app"⟩),
    .event (.modified path none (.string "on\n") (.list [.scalar (.bool true), .null]))]

private theorem legible_changedEntry (path : Path) :
    ∀ e ∈ (changedEntry path).filterMap Step.event?, e.Legible := by
  have hold : (Node.string "on\n").Decoded := .json (.string "on\n")
  have hnew : (Node.list [.scalar (.bool true), .null]).Decoded :=
    .json (.array [.bool true, .null])
  have hold' : (Node.string "on\n").FloatFree := .scalar nofun
  have hnew' : (Node.list [.scalar (.bool true), .null]).FloatFree :=
    .list (List.forall_mem_cons.mpr ⟨.scalar nofun, List.forall_mem_singleton.mpr (.scalar nofun)⟩)
  refine List.forall_mem_cons.mpr ⟨⟨nofun, nofun, ?_⟩, List.forall_mem_singleton.mpr ⟨?_, ?_, ?_⟩⟩
  · rintro _ ⟨⟩
    exact ⟨by decide, by rintro _ ⟨⟩; decide, by decide⟩
  · exact List.forall_mem_cons.mpr ⟨hold, List.forall_mem_singleton.mpr hnew⟩
  · exact List.forall_mem_cons.mpr ⟨hold', List.forall_mem_singleton.mpr hnew'⟩
  · nofun

/-- A key with a point in it is displayed as two keys are, so that the outputs are the same. -/
theorem jsonLines_determine_dotted_key :
    jsonLines.bytes (changedEntry [.key "data", .key "a.b"]) =
        jsonLines.bytes (changedEntry [.key "data", .key "a", .key "b"]) ∧
      List.Forall₂ Event.Alike
        ((changedEntry [.key "data", .key "a.b"]).filterMap Step.event?)
        ((changedEntry [.key "data", .key "a", .key "b"]).filterMap Step.event?) := by
  have hpath : Path.display [.key "data", .key "a.b"] =
      Path.display [.key "data", .key "a", .key "b"] := by decide
  have hbytes : jsonLines.bytes (changedEntry [.key "data", .key "a.b"]) =
      jsonLines.bytes (changedEntry [.key "data", .key "a", .key "b"]) := by
    rw [bytes_eq_join, bytes_eq_join, funext jsonLines_output]
    simp only [changedEntry, List.filterMap_cons, Step.event?, List.map_cons, JsonReport.text,
      JsonReport.toJson, JsonReport.pathMember, hpath]
  exact ⟨hbytes, jsonLines_determine_events.2.2 _ _ (legible_changedEntry _)
    (legible_changedEntry _) hbytes⟩

end Renderer
end ManifestDiff
