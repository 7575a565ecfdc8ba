import ManifestDiff.Proofs.Json.Printable
import ManifestDiff.Proofs.Node.WellFormed
import ManifestDiff.Render.Sink
/-!
# What becomes of a writer

A writer that is handed a text, in pieces or as a whole, passes on what it held back and then the
text, and may hold back the end of it. When the device is full it has the bytes that fit. For a
program that writes a text it does not matter how the text is cut into pieces, so it is enough that
programs which are run one after the other write their texts one after the other.
-/
namespace ManifestDiff

theorem extract_of_size_le {bytes : ByteArray} {n : Nat} (h : bytes.size ≤ n) :
    bytes.extract 0 n = bytes :=
  ByteArray.ext (ByteArray.data_extract.trans (Array.extract_eq_self_of_le h))

theorem extract_append_of_le {bytes : ByteArray} {n : Nat} (h : n ≤ bytes.size) (rest : ByteArray) :
    (bytes ++ rest).extract 0 n = bytes.extract 0 n := by
  have hrest : n - bytes.size = 0 := Nat.sub_eq_zero_of_le h
  rw [ByteArray.extract_append, hrest, Nat.zero_sub, ByteArray.extract_same,
    ByteArray.append_empty]

theorem extract_append_of_ge {bytes : ByteArray} {n : Nat} (h : bytes.size ≤ n) (rest : ByteArray) :
    (bytes ++ rest).extract 0 n = bytes ++ rest.extract 0 (n - bytes.size) := by
  rw [ByteArray.extract_append, extract_of_size_le h, Nat.zero_sub]

namespace Writer

/-- The writer has taken some bytes. Some bytes are passed on, and the rest is held back now. -/
structure Took (writer : Writer) (bytes passed : ByteArray) (next : Writer) : Prop where
  accepted : next.accepted = writer.accepted ++ passed
  held : passed ++ next.held = writer.held ++ bytes
  room : next.room = writer.room.map (· - passed.size)
  fits : ∀ room, writer.room = some room → passed.size ≤ room
  refusal : next.refusal = writer.refusal

/-- The writer has not taken all the bytes, and its device has those that fit. -/
structure Refused (writer : Writer) (bytes : ByteArray) (room : Nat) (next : Writer) : Prop where
  bound : writer.room = some room
  full : room < (writer.held ++ bytes).size
  accepted : next.accepted = writer.accepted ++ (writer.held ++ bytes).extract 0 room
  refusal : next.refusal = writer.refusal

structure IsPlain (writer : Writer) : Prop where
  capacity : writer.capacity = 0
  held : writer.held = .empty

variable {writer next last : Writer} {bytes rest passed passed' : ByteArray} {room : Nat}

theorem Took.append (h : Took writer bytes passed next) (hrest : Took next rest passed' last) :
    Took writer (bytes ++ rest) (passed ++ passed') last where
  accepted := by rw [hrest.accepted, h.accepted, ByteArray.append_assoc]
  held := by
    rw [ByteArray.append_assoc, hrest.held, ← ByteArray.append_assoc, h.held,
      ByteArray.append_assoc]
  room := by
    rw [hrest.room, h.room, Option.map_map, ByteArray.size_append]
    exact congrArg (Option.map · _) (funext fun room => Nat.sub_sub ..)
  fits room hroom := by
    have hpassed := h.fits room hroom
    have hnext := hrest.fits (room - passed.size) (by rw [h.room, hroom, Option.map_some])
    rw [ByteArray.size_append]
    omega
  refusal := hrest.refusal.trans h.refusal

theorem Took.passed_eq (h : Took writer bytes passed next) (hwriter : writer.IsPlain)
    (hnext : next.IsPlain) : passed = bytes := by
  have hheld := h.held
  rwa [hwriter.held, hnext.held, ByteArray.append_empty, ByteArray.empty_append] at hheld

theorem Took.refused (h : Took writer bytes passed next) (hrest : Refused next rest room last) :
    Refused writer (bytes ++ rest) (passed.size + room) last := by
  have hheld : writer.held ++ (bytes ++ rest) = passed ++ (next.held ++ rest) := by
    rw [← ByteArray.append_assoc, ← h.held, ByteArray.append_assoc]
  refine ⟨?bound, ?full, ?accepted, hrest.refusal.trans h.refusal⟩
  case bound =>
    obtain ⟨start, hstart, hroom⟩ := Option.map_eq_some_iff.mp (h.room.symm.trans hrest.bound)
    have hfits := h.fits start hstart
    rw [hstart, Option.some_inj]
    omega
  case full =>
    rw [hheld, ByteArray.size_append]
    exact Nat.add_lt_add_left hrest.full _
  case accepted =>
    rw [hrest.accepted, h.accepted, hheld, extract_append_of_ge (Nat.le_add_right _ _),
      Nat.add_sub_cancel_left, ByteArray.append_assoc]

theorem Refused.append (h : Refused writer bytes room next) (rest : ByteArray) :
    Refused writer (bytes ++ rest) room next where
  bound := h.bound
  full := by
    rw [← ByteArray.append_assoc, ByteArray.size_append]
    exact Nat.lt_add_right _ h.full
  accepted := by
    rw [h.accepted, ← ByteArray.append_assoc, extract_append_of_le (Nat.le_of_lt h.full)]
  refusal := h.refusal

inductive Handled (writer : Writer) (bytes : ByteArray) : Writer × Bool → Prop
  | took {passed : ByteArray} {next : Writer} (h : Took writer bytes passed next) :
    Handled writer bytes (next, true)
  | refused {room : Nat} {next : Writer} (h : Refused writer bytes room next) :
    Handled writer bytes (next, false)

theorem took_empty (writer : Writer) : Took writer .empty .empty writer where
  accepted := ByteArray.append_empty.symm
  held := ByteArray.empty_append.trans ByteArray.append_empty.symm
  room := by simp
  fits room _ := Nat.zero_le room
  refusal := rfl

theorem hold_took (writer : Writer) (bytes : ByteArray) :
    Took writer bytes .empty (writer.hold bytes) where
  accepted := (ByteArray.append_empty).symm
  held := ByteArray.empty_append
  room := by simp [hold]
  fits room _ := Nat.zero_le room
  refusal := rfl

theorem fits_or_full (writer : Writer) (bytes : ByteArray) :
    (∀ room, writer.room = some room → bytes.size ≤ room) ∨
      ∃ room, writer.room = some room ∧ room < bytes.size := by
  cases hroom : writer.room with
  | none => exact .inl nofun
  | some room =>
    rcases Nat.lt_or_ge room bytes.size with hfull | hfits
    · exact .inr ⟨room, rfl, hfull⟩
    · exact .inl fun _ hsome => Option.some_inj.mp hsome ▸ hfits

theorem fitting_of_fits (h : ∀ room, writer.room = some room → bytes.size ≤ room) :
    writer.fitting bytes = bytes := by
  rw [fitting]
  split
  next => rfl
  next room hroom => exact extract_of_size_le (h room hroom)

theorem pass_of_fits (h : ∀ room, writer.room = some room → bytes.size ≤ room) :
    writer.pass bytes = ({ writer with
      accepted := writer.accepted ++ bytes
      room := writer.room.map (· - bytes.size) }, true) := by
  rw [pass, fitting_of_fits h, beq_self_eq_true]

theorem pass_of_full (hroom : writer.room = some room) (h : room < bytes.size) :
    writer.pass bytes = ({ writer with
      accepted := writer.accepted ++ bytes.extract 0 room
      room := some 0 }, false) := by
  have hfitting : writer.fitting bytes = bytes.extract 0 room := by rw [fitting, hroom]
  have hsize : (bytes.extract 0 room).size = room := by
    rw [ByteArray.size_extract, Nat.min_eq_left (Nat.le_of_lt h), Nat.sub_zero]
  have hcut : (room == bytes.size) = false := beq_eq_false_iff_ne.mpr (Nat.ne_of_lt h)
  rw [pass, hfitting, hsize, hcut, hroom, Option.map_some, Nat.sub_self]

theorem pass_handled (h : writer.held = .empty ∨ bytes = .empty) :
    Handled writer bytes (writer.pass bytes) := by
  rcases fits_or_full writer bytes with hfits | ⟨room, hroom, hfull⟩
  · have hheld : bytes ++ writer.held = writer.held ++ bytes := by
      rcases h with h | h <;> rw [h, ByteArray.append_empty, ByteArray.empty_append]
    rw [pass_of_fits hfits]
    exact .took ⟨rfl, hheld, rfl, hfits, rfl⟩
  · have hempty : writer.held ++ bytes = bytes := by
      rcases h with h | h
      · rw [h, ByteArray.empty_append]
      · rw [h] at hfull
        exact absurd hfull (Nat.not_lt_zero room)
    rw [pass_of_full hroom hfull]
    exact .refused ⟨hroom, hempty.symm ▸ hfull, by rw [hempty], rfl⟩

theorem flush_of_fits (h : ∀ room, writer.room = some room → writer.held.size ≤ room) :
    writer.flush = ({ writer with
      accepted := writer.accepted ++ writer.held
      room := writer.room.map (· - writer.held.size)
      held := .empty }, true) := by
  have hrest : writer.held.extract writer.held.size writer.held.size = .empty :=
    ByteArray.extract_same
  rw [flush, pass_of_fits h, fitting_of_fits h]
  dsimp only
  rw [hrest]

theorem flush_handled (writer : Writer) : Handled writer .empty writer.flush := by
  have hempty : writer.held ++ ByteArray.empty = writer.held := ByteArray.append_empty
  rcases fits_or_full writer writer.held with hfits | ⟨room, hroom, hfull⟩
  · rw [flush_of_fits hfits]
    exact .took ⟨rfl, rfl, rfl, hfits, rfl⟩
  · rw [flush, pass_of_full hroom hfull]
    exact .refused ⟨hroom, hempty.symm ▸ hfull, by rw [hempty], rfl⟩

theorem held_of_flush (h : writer.flush = (next, true)) :
    next.held = .empty ∧ next.capacity = writer.capacity := by
  rcases fits_or_full writer writer.held with hfits | ⟨room, hroom, hfull⟩
  · rw [flush_of_fits hfits] at h
    cases h
    exact ⟨rfl, rfl⟩
  · rw [flush, pass_of_full hroom hfull] at h
    cases h

theorem Took.handled (h : Took writer bytes passed next) {result : Writer × Bool}
    (hrest : Handled next rest result) : Handled writer (bytes ++ rest) result := by
  cases hrest with
  | took hrest => exact .took (h.append hrest)
  | refused hrest => exact .refused (h.refused hrest)

theorem write_handled (writer : Writer) (bytes : ByteArray) :
    Handled writer bytes (writer.write bytes) := by
  have hflush := flush_handled writer
  rw [write]
  split
  next => exact .took (hold_took writer bytes)
  next =>
    rw [← ByteArray.empty_append (b := bytes)]
    split
    next next hnext =>
      rw [hnext] at hflush
      cases hflush with
      | refused h => exact .refused (h.append bytes)
    next next hnext =>
      rw [hnext] at hflush
      cases hflush with
      | took h =>
        refine h.handled ?_
        split
        next => exact .took (hold_took next bytes)
        next => exact pass_handled (.inl (held_of_flush hnext).1)

theorem IsPlain.write (h : writer.IsPlain) (hwrite : writer.write bytes = (next, true)) :
    next.IsPlain := by
  rw [Writer.write, h.capacity, if_neg (by simp)] at hwrite
  split at hwrite
  next => cases hwrite
  next flushed hflush =>
    obtain ⟨hheld, hcapacity⟩ := held_of_flush hflush
    rw [hcapacity, h.capacity, if_neg (Nat.not_lt_zero _)] at hwrite
    have hnext : next = (flushed.pass bytes).1 := by rw [hwrite]
    rw [hnext]
    exact ⟨hcapacity.trans h.capacity, hheld⟩

end Writer

/-- What becomes of the writer and of a program that writes a text. When a plain writer is full, the
first byte that it has no room for tells the fault. -/
inductive Served (faultOf : UInt8 → OutputFault) (writer : Writer) (text : String) :
    Writer × Option OutputFault → Prop
  | took {passed : ByteArray} {next : Writer} (h : writer.Took text.toUTF8 passed next)
    (hplain : writer.IsPlain → next.IsPlain) : Served faultOf writer text (next, none)
  | refused {room : Nat} {next : Writer} {fault : OutputFault}
    (h : writer.Refused text.toUTF8 room next)
    (hfault : writer.IsPlain → text.toUTF8.data[room]?.map faultOf = some fault) :
    Served faultOf writer text (next, some fault)

/-- The program writes this text, to any writer. -/
def Writing.Writes (faultOf : UInt8 → OutputFault) (program : Writing Unit) (text : String) : Prop :=
  ∀ writer, Served faultOf writer text (program.on writer)

namespace Served

variable {faultOf : UInt8 → OutputFault} {writer next : Writer} {text rest : String}
  {result : Writer × Option OutputFault} {fault : OutputFault}

/-- A text that is written behind another one is as good as both in one. -/
theorem append (h : Served faultOf writer text (next, none))
    (hrest : Served faultOf next rest result) : Served faultOf writer (text ++ rest) result := by
  have htext : (text ++ rest).toUTF8 = text.toUTF8 ++ rest.toUTF8 := String.toByteArray_append
  cases h with
  | @took passed _ h hplain =>
  cases hrest with
  | took hrest hplain' =>
    exact .took (htext ▸ h.append hrest) fun hwriter => hplain' (hplain hwriter)
  | @refused room last _ hrest hfault =>
    refine .refused (htext ▸ h.refused hrest) fun hwriter => ?_
    have hpassed : passed = text.toUTF8 := h.passed_eq hwriter (hplain hwriter)
    have hbehind : text.toUTF8.data.size ≤ text.toUTF8.size + room := Nat.le_add_right ..
    rw [← hfault (hplain hwriter), htext, hpassed, ByteArray.data_append,
      Array.getElem?_append_right hbehind, ByteArray.size_data, Nat.add_sub_cancel_left]

theorem stop (h : Served faultOf writer text (next, some fault)) (rest : String) :
    Served faultOf writer (text ++ rest) (next, some fault) := by
  have htext : (text ++ rest).toUTF8 = text.toUTF8 ++ rest.toUTF8 := String.toByteArray_append
  cases h with
  | @refused room _ _ h hfault =>
    refine .refused (htext ▸ h.append rest.toUTF8) fun hwriter => ?_
    have hfull : room < text.toUTF8.data.size := by
      have hsize := h.full
      rwa [hwriter.held, ByteArray.empty_append] at hsize
    rw [← hfault hwriter, htext, ByteArray.data_append, Array.getElem?_append_left hfull]

end Served

namespace Writing

variable {faultOf : UInt8 → OutputFault} {program program' : Writing Unit} {text text' : String}

theorem on_bind (program program' : Writing Unit) (writer : Writer) :
    (do program; program' : Writing Unit).on writer =
      match program.on writer with
      | (writer, none) => program'.on writer
      | (writer, some fault) => (writer, some fault) := by
  rw [on, on, ExceptT.run_bind, StateT.run_bind]
  rcases program.run.run writer with ⟨_ | _, next⟩ <;> rfl

theorem writes_pure : Writes faultOf (pure ()) "" := fun writer =>
  .took (writer.took_empty) id

theorem Writes.bind (h : Writes faultOf program text) (h' : Writes faultOf program' text') :
    Writes faultOf (do program; program') (text ++ text') := by
  intro writer
  have hserved := h writer
  rw [on_bind]
  cases hon : program.on writer with | mk next fault? =>
  rw [hon] at hserved
  cases fault? with
  | none => exact hserved.append (h' next)
  | some fault => exact hserved.stop text'

theorem on_put (fault : OutputFault) (text : String) (writer : Writer) :
    (put fault text).on writer =
      match writer.write text.toUTF8 with
      | (writer, true) => (writer, none)
      | (writer, false) => (writer, some fault) := by
  have hon : (put fault text).on writer =
      Writing.on (if (writer.write text.toUTF8).2 = true then pure () else throw fault)
        (writer.write text.toUTF8).1 := rfl
  rw [hon]
  rcases writer.write text.toUTF8 with ⟨next, _ | _⟩ <;> rfl

theorem writes_put {fault : OutputFault} (h : ∀ byte ∈ text.toUTF8.data, faultOf byte = fault) :
    Writes faultOf (put fault text) text := by
  intro writer
  have hhandled := writer.write_handled text.toUTF8
  rw [on_put]
  cases hwrite : writer.write text.toUTF8 with | mk next complete =>
  rw [hwrite] at hhandled
  cases hhandled with
  | took h => exact .took h fun hplain => hplain.write hwrite
  | @refused room _ hrefused =>
    refine .refused hrefused fun hplain => ?_
    have hfull : room < text.toUTF8.data.size := by
      have hsize := hrefused.full
      rwa [hplain.held, ByteArray.empty_append] at hsize
    rw [Array.getElem?_eq_getElem hfull, Option.map_some, h _ (Array.getElem_mem hfull)]

theorem writes_line (parts : List String) :
    Writes (fun _ => .io) (line parts) (String.join parts ++ "\n") := by
  have hparts : Writes (fun _ => .io) (parts.forM (put .io)) (String.join parts) := by
    induction parts with
    | nil => exact writes_pure
    | cons part parts ih =>
      rw [String.join_cons]
      exact Writes.bind (writes_put fun _ _ => rfl) ih
  exact hparts.bind (writes_put fun _ _ => rfl)

end Writing

private theorem join_singleton (text : String) : String.join [text] = text := by
  rw [String.join_cons, String.join_nil, String.append_empty]

theorem Writing.writes_indented (depth : Nat) {parts : List String} {text : String}
    (h : String.join parts = text) :
    Writes (fun _ => .io) (line (indentation depth :: parts)) (indented depth text) := by
  have hwrites := writes_line (indentation depth :: parts)
  rwa [String.join_cons, h] at hwrites

namespace Node

open Writing

private theorem writes_entries {depth : Nat} {entries : List (String × Node)}
    (ih : ∀ entry ∈ entries, ∀ depth,
      Writes (fun _ => .io) (entry.2.writeListing depth) (entry.2.listing depth)) :
    Writes (fun _ => .io) (writeEntries depth entries) (listingEntries depth entries) := by
  induction entries with
  | nil => exact writes_pure
  | cons entry rest ihRest =>
    obtain ⟨k, v⟩ := entry
    obtain ⟨hv, hrest⟩ := List.forall_mem_cons.mp ih
    have hkey : String.join [k, ":"] = k ++ ":" := by
      simp [String.join_cons]
    cases v with
    | scalar value =>
      have hjoin : String.join [k, ": ", value.display] = k ++ ": " ++ value.display := by
        simp [String.join_cons, String.append_assoc]
      exact (writes_indented depth hjoin).bind (ihRest hrest)
    | mapping entries =>
      rw [writeEntries, listingEntries, String.append_assoc]
      exact (writes_indented depth hkey).bind ((hv (depth + 1)).bind (ihRest hrest))
      all_goals exact nofun
    | list items =>
      rw [writeEntries, listingEntries, String.append_assoc]
      exact (writes_indented depth hkey).bind ((hv (depth + 1)).bind (ihRest hrest))
      all_goals exact nofun

private theorem writes_items {depth : Nat} {items : List Node}
    (ih : ∀ item ∈ items, ∀ depth,
      Writes (fun _ => .io) (item.writeListing depth) (item.listing depth)) :
    Writes (fun _ => .io) (writeItems depth items) (listingItems depth items) := by
  induction items with
  | nil => exact writes_pure
  | cons v rest ihRest =>
    obtain ⟨hv, hrest⟩ := List.forall_mem_cons.mp ih
    rw [writeItems, listingItems, String.append_assoc]
    exact (writes_indented depth (join_singleton "-")).bind ((hv (depth + 1)).bind (ihRest hrest))

theorem writes_listing (node : Node) (depth : Nat) :
    Writes (fun _ => .io) (node.writeListing depth) (node.listing depth) := by
  induction node generalizing depth with
  | mapping entries ih => exact writes_entries ih
  | list items ih => exact writes_items ih
  | scalar value =>
    exact writes_indented depth (join_singleton _)

end Node

namespace TextReport

open Writing

variable {palette : Palette}

theorem writes_painted (depth : Nat) (tone : Tone) (text : String) :
    Writes (fun _ => .io) (writePainted palette depth tone text)
      (painted palette depth tone text) :=
  writes_indented depth (join_singleton _)

theorem writes_unchanged (path : Path) (value : Node) :
    Writes (fun _ => .io) (writeUnchanged path value) (unchanged path value) := by
  cases value with
  | scalar value => exact writes_indented _ (join_singleton _)
  | mapping entries =>
    exact (writes_indented _ (join_singleton _)).bind (Node.writes_listing (.mapping entries) _)
  | list items =>
    exact (writes_indented _ (join_singleton _)).bind (Node.writes_listing (.list items) _)

theorem writes_replacement (palette : Palette) (depth : Nat) (start : String) (old new : Node) :
    Writes (fun _ => .io)
      (do
        writePainted palette depth .modification ("~~ " ++ start ++ old.summary)
        writePainted palette depth .modification ("~> " ++ start ++ new.summary))
      (replacement palette depth start old new) :=
  (writes_painted depth .modification _).bind (writes_painted depth .modification _)

theorem writes_structural (path : Path) (tone : Tone) (mark : String) (value : Node)
    (tainted : Bool) :
    Writes (fun _ => .io) (writeStructural palette path tone mark value tainted)
      (structural palette path tone mark value tainted) :=
  writes_indented _ (join_singleton _)

theorem writes_lines (palette : Palette) (event : Event) :
    Writes (fun _ => .io) (write palette event) (lines palette event) := by
  cases event with
  | objectRemoved object => exact writes_painted _ _ _
  | objectAdded object => exact writes_painted _ _ _
  | objectHeader object => exact (writes_line []).bind (writes_indented 0 (join_singleton "---"))
  | sectionHeader path => exact writes_painted _ _ _
  | unchanged path value => exact writes_unchanged path value
  | added path value => exact writes_painted _ _ _
  | removed path value => exact writes_painted _ _ _
  | nested path => exact writes_painted _ _ _
  | modified path key old new =>
    cases key with
    | none => exact writes_replacement palette path.depth "" old new
    | some key =>
      have hwrites := writes_replacement palette (labelDepth path) (key ++ ": ") old new
      simp only [← String.append_assoc] at hwrites
      exact hwrites
  | structuralAddition path identity value tainted => exact writes_structural _ _ _ _ _
  | structuralRemoval path identity value tainted => exact writes_structural _ _ _ _ _

end TextReport

namespace Renderer

/-- The fault that a byte means that is not written. In JSON lines the line feeds are written apart
from the events. -/
def faultOf : Renderer → UInt8 → OutputFault
  | .text _, _ => .io
  | .jsonLines, byte => if byte = 10 then .io else .serialization

theorem lineFeed_not_mem_text (event : Event) : 10 ∉ (JsonReport.text event).toUTF8.data := by
  intro h
  have hblank := le_of_mem_toUTF8 (Json.Value.printable_text (JsonReport.toJson event)) h
  exact absurd hblank (by decide)

/-- Whatever a renderer writes for an event in pieces, it is the output for the event. -/
theorem writes_output (renderer : Renderer) (event : Event) :
    Writing.Writes renderer.faultOf (renderer.write event) (renderer.output event) := by
  cases renderer with
  | text palette => exact TextReport.writes_lines palette event
  | jsonLines =>
    refine Writing.Writes.bind (Writing.writes_put ?_) (Writing.writes_put ?_)
    · intro byte hbyte
      have hne : byte ≠ 10 := fun h => lineFeed_not_mem_text event (h ▸ hbyte)
      exact if_neg hne
    · intro byte hbyte
      have hdata : "\n".toUTF8.data.toList = [10] := by decide
      have hlineFeed : byte ∈ [10] := hdata ▸ Array.mem_toList_iff.mpr hbyte
      exact if_pos (List.mem_singleton.mp hlineFeed)

theorem emit_served (renderer : Renderer) (writer : Writer) (event : Event) :
    Served renderer.faultOf writer (renderer.output event) (renderer.emit writer event) :=
  renderer.writes_output event writer

end Renderer
end ManifestDiff
