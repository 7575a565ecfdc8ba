import ManifestDiff.Proofs.Render.Writer
import ManifestDiff.Proofs.Report.Emission
/-!
# Delivery

A sink is handed the events of a comparison one after the other, and none after the first that it
fails on. A writer without room for a whole report has taken the first bytes of it, up to the byte
that did not fit, and the fault tells which part of an event this byte belongs to.
-/
namespace ManifestDiff

section Sink

variable {σ ε α : Type} {sink : Sink σ ε}

def Delivery.result (delivery : Delivery σ ε) (value : α) : Except ε α × Progress σ :=
  (match delivery.fault with
    | some fault => .error fault
    | none => .ok value, ⟨delivery.state, delivery.notes⟩)

/-- The sink takes these events one after the other and fails on none of them. -/
inductive Accepts (sink : Sink σ ε) : σ → List Event → σ → Prop
  | nil (state : σ) : Accepts sink state [] state
  | cons {first next last : σ} {e : Event} {events : List Event}
    (he : sink first e = (next, none)) (hevents : Accepts sink next events last) :
    Accepts sink first (e :: events) last

/-- What may become of a comparison with these steps that returns this value. An event that the sink
fails on is the last one that it is handed, nothing is logged after it, and its fault is returned. -/
inductive Outcome (sink : Sink σ ε) (state : σ) (steps : List Step) (value : α) :
    Except ε α × Progress σ → Prop
  | completed {last : σ} (haccepts : Accepts sink state (steps.filterMap Step.event?) last) :
    Outcome sink state steps value (.ok value, ⟨last, steps.filterMap Step.note?⟩)
  | stopped {before after : List Step} {e : Event} {reached last : σ} {fault : ε}
    (hsteps : steps = before ++ .event e :: after)
    (haccepts : Accepts sink state (before.filterMap Step.event?) reached)
    (hfault : sink reached e = (last, some fault)) :
    Outcome sink state steps value (.error fault, ⟨last, before.filterMap Step.note?⟩)

variable {state : σ} {steps : List Step} {value : α} {result : Except ε α} {progress : Progress σ}

private theorem Outcome.note (n : Note) (h : Outcome sink state steps value (result, progress)) :
    Outcome sink state (.note n :: steps) value
      (result, { progress with notes := n :: progress.notes }) := by
  cases h with
  | completed haccepts => exact .completed haccepts
  | @stopped before after e reached last fault hsteps haccepts hfault =>
    have hcons : .note n :: steps = (.note n :: before) ++ .event e :: after :=
      congrArg (List.cons _) hsteps
    exact .stopped hcons haccepts hfault

private theorem Outcome.event {next : σ} {e : Event} (he : sink state e = (next, none))
    (h : Outcome sink next steps value (result, progress)) :
    Outcome sink state (.event e :: steps) value (result, progress) := by
  cases h with
  | completed haccepts => exact .completed (.cons he haccepts)
  | @stopped before after e' reached last fault hsteps haccepts hfault =>
    have hcons : .event e :: steps = (.event e :: before) ++ .event e' :: after :=
      congrArg (List.cons _) hsteps
    have hstopped : Outcome sink state (.event e :: steps) value
        (.error fault, ⟨last, (Step.event e :: before).filterMap Step.note?⟩) :=
      .stopped hcons (.cons he haccepts) hfault
    exact hstopped

theorem deliver_outcome (sink : Sink σ ε) (state : σ) (steps : List Step) (value : α) :
    Outcome sink state steps value ((deliver sink state steps).result value) := by
  induction steps generalizing state with
  | nil => exact Outcome.completed (.nil state)
  | cons step steps ih =>
    cases step with
    | note n => exact (ih state).note n
    | event e =>
      rw [deliver]
      split
      next last fault hfault => exact .stopped (List.nil_append _).symm (.nil state) hfault
      next next he => exact (ih next).event he

namespace Emission

theorem run_bind {β : Type} (program : Emission σ ε α) (next : α → Emission σ ε β)
    (progress : Progress σ) :
    (program >>= next).run.run progress =
      match program.run.run progress with
      | (.ok x, progress) => (next x).run.run progress
      | (.error fault, progress) => (.error fault, progress) := by
  rw [ExceptT.run_bind, StateT.run_bind]
  rcases program.run.run progress with ⟨_ | _, progress⟩ <;> rfl

theorem run_emit (sink : Sink σ ε) (e : Event) (state : σ) (notes : List Note) :
    (emit sink e).run.run ⟨state, notes⟩ =
      match sink state e with
      | (next, none) => (.ok (), ⟨next, notes⟩)
      | (next, some fault) => (.error fault, ⟨next, notes⟩) := by
  have hrun : (emit sink e).run.run ⟨state, notes⟩ =
      StateT.run (ExceptT.run (match (sink state e).2 with
        | some fault => throw fault
        | none => (pure () : Emission σ ε Unit))) ⟨(sink state e).1, notes⟩ := rfl
  rw [hrun]
  rcases sink state e with ⟨next, _ | _⟩ <;> rfl

theorem run_performAll (sink : Sink σ ε) (steps : List Step) (state : σ) (notes : List Note) :
    (performAll sink steps).run.run ⟨state, notes⟩ =
      (((deliver sink state steps).result ()).1,
        ⟨(deliver sink state steps).state, notes ++ (deliver sink state steps).notes⟩) := by
  induction steps generalizing state notes with
  | nil =>
    rw [deliver, List.append_nil]
    rfl
  | cons step steps ih =>
    rw [performAll_cons, run_bind]
    cases step with
    | note n =>
      have hnote : (perform sink (.note n)).run.run ⟨state, notes⟩ =
          (.ok (), ⟨state, notes ++ [n]⟩) := rfl
      rw [hnote]
      dsimp only
      rw [ih, deliver, List.append_assoc]
      rfl
    | event e =>
      rw [perform_event, run_emit, deliver]
      rcases sink state e with ⟨next, _ | fault⟩
      · exact ih next notes
      · dsimp only
        rw [List.append_nil]
        rfl

theorem start_performAll (sink : Sink σ ε) (steps : List Step) (value : α) (state : σ) :
    start (do performAll sink steps; return value) state =
      (deliver sink state steps).result value := by
  rw [start, run_bind, run_performAll, Delivery.result, Delivery.result]
  cases (deliver sink state steps).fault <;> rfl

end Emission

end Sink

namespace Served

variable {faultOf : UInt8 → OutputFault} {writer next : Writer} {text : String}
  {fault? : Option OutputFault}

theorem of_unbounded (h : Served faultOf writer text (next, fault?)) (hplain : writer.IsPlain)
    (hroom : writer.room = none) :
    next.accepted = writer.accepted ++ text.toUTF8 ∧ fault? = none := by
  cases h with
  | took h hnext => exact ⟨h.passed_eq hplain (hnext hplain) ▸ h.accepted, rfl⟩
  | refused h => exact nomatch hroom.symm.trans h.bound

theorem of_bounded {room : Nat} (h : Served faultOf writer text (next, fault?))
    (hplain : writer.IsPlain) (hroom : writer.room = some room) :
    next.accepted = writer.accepted ++ text.toUTF8.extract 0 room ∧
      fault? = text.toUTF8.data[room]?.map faultOf := by
  cases h with
  | took h hnext =>
    have hpassed := h.passed_eq hplain (hnext hplain)
    have hfits : text.toUTF8.size ≤ room := hpassed ▸ h.fits room hroom
    have hnone : text.toUTF8.data[room]? = none := Array.getElem?_eq_none hfits
    rw [h.accepted, hpassed, extract_of_size_le hfits, hnone]
    exact ⟨rfl, rfl⟩
  | refused h hfault =>
    cases hroom.symm.trans h.bound
    have haccepted := h.accepted
    rw [hplain.held, ByteArray.empty_append] at haccepted
    exact ⟨haccepted, (hfault hplain).symm⟩

end Served

namespace Renderer

def report (renderer : Renderer) (steps : List Step) : String :=
  String.join ((steps.filterMap Step.event?).map renderer.output)

def bytes (renderer : Renderer) (steps : List Step) : ByteArray :=
  (deliver renderer.emit .unbounded steps).state.accepted

/-- The events are written one behind the other, as if they were one text. -/
theorem deliver_served (renderer : Renderer) (writer : Writer) (steps : List Step) :
    Served renderer.faultOf writer (renderer.report steps)
      ((deliver renderer.emit writer steps).state, (deliver renderer.emit writer steps).fault) := by
  induction steps generalizing writer with
  | nil => exact .took writer.took_empty id
  | cons step steps ih =>
    cases step with
    | note n => exact ih writer
    | event e =>
      have hreport : renderer.report (.event e :: steps) =
          renderer.output e ++ renderer.report steps := by
        rw [report, List.filterMap_cons, Step.event?, List.map_cons, String.join_cons, report]
      have hserved := renderer.emit_served writer e
      rw [hreport, deliver]
      cases hemit : renderer.emit writer e with | mk next fault? =>
      rw [hemit] at hserved
      cases fault? with
      | none => exact hserved.append (ih next)
      | some fault => exact hserved.stop _

theorem bytes_eq_join (renderer : Renderer) (steps : List Step) :
    renderer.bytes steps =
      (String.join ((steps.filterMap Step.event?).map renderer.output)).toUTF8 :=
  ((renderer.deliver_served .unbounded steps).of_unbounded ⟨rfl, rfl⟩ rfl).1.trans
    ByteArray.empty_append

theorem jsonLines_output (event : Event) :
    Renderer.jsonLines.output event = JsonReport.text event ++ "\n" := rfl

theorem text_output (palette : Palette) (event : Event) :
    (Renderer.text palette).output event = TextReport.lines palette event := rfl

end Renderer

namespace Renderer

end Renderer

abbrev Comparison (α : Type) := (σ ε : Type) → Sink σ ε → Emission σ ε α

def Renderer.written {α : Type} (renderer : Renderer) (comparison : Comparison α) : ByteArray :=
  ((comparison _ _ renderer.emit).start .unbounded).2.state.accepted

/-- What becomes of a comparison whose output is cut off where the writer is full. -/
structure CutOff {α : Type} (output : ByteArray) (room : Nat) (faultOf : UInt8 → OutputFault)
    (value : α) (result : Except OutputFault α × Progress Writer) : Prop where
  accepted : result.2.state.accepted = output.extract 0 (min room output.size)
  complete : output.size ≤ room → result.1 = .ok value
  incomplete : ∀ h : room < output.size, result.1 = .error (faultOf output[room])

/-- How a comparison ends that has these steps and this value, whatever sink it is handed. -/
structure FailsCleanly {α : Type} (comparison : Comparison α) (steps : List Step) (value : α) :
    Prop where
  sink : ∀ (σ ε : Type) (sink : Sink σ ε) (state : σ),
    Outcome sink state steps value ((comparison σ ε sink).start state)
  unbounded : ∀ renderer : Renderer,
    ((comparison _ _ renderer.emit).start .unbounded).1 = .ok value
  bounded : ∀ (renderer : Renderer) (room : Nat) (refusal : String),
    CutOff (renderer.written comparison) room renderer.faultOf value
      ((comparison _ _ renderer.emit).start (.bounded room refusal))
  text : ∀ palette, (Renderer.text palette).written comparison =
    (String.join ((steps.filterMap Step.event?).map (TextReport.lines palette))).toUTF8
  jsonLines : Renderer.jsonLines.written comparison =
    (String.join ((steps.filterMap Step.event?).map fun e => JsonReport.text e ++ "\n")).toUTF8
  oneLine : ∀ e ∈ steps.filterMap Step.event?, 10 ∉ (JsonReport.text e).toUTF8.data

private theorem extract_min (bytes : ByteArray) (n : Nat) :
    bytes.extract 0 (min n bytes.size) = bytes.extract 0 n := by
  rcases Nat.le_total bytes.size n with h | h
  · rw [Nat.min_eq_right h, extract_of_size_le h, ByteArray.extract_zero_size]
  · rw [Nat.min_eq_left h]

/-- It is enough that a comparison performs its steps, to any sink. -/
theorem failsCleanly {α : Type} {comparison : Comparison α} {steps : List Step} {value : α}
    (h : ∀ (σ ε : Type) (sink : Sink σ ε),
      comparison σ ε sink = (do Emission.performAll sink steps; return value)) :
    FailsCleanly comparison steps value := by
  have hstart (σ ε : Type) (sink : Sink σ ε) (state : σ) :
      (comparison σ ε sink).start state = (deliver sink state steps).result value := by
    rw [h, Emission.start_performAll]
  have hwritten (renderer : Renderer) :
      renderer.written comparison = (renderer.report steps).toUTF8 := by
    rw [Renderer.written, hstart]
    exact renderer.bytes_eq_join steps
  constructor
  case sink =>
    intro σ ε sink state
    rw [hstart]
    exact deliver_outcome sink state steps value
  case unbounded =>
    intro renderer
    have hserved := (renderer.deliver_served .unbounded steps).of_unbounded ⟨rfl, rfl⟩ rfl
    rw [hstart, Delivery.result, hserved.2]
  case bounded =>
    intro renderer room refusal
    obtain ⟨haccepted, hfault⟩ :=
      (renderer.deliver_served (.bounded room refusal) steps).of_bounded ⟨rfl, rfl⟩ rfl
    rw [hstart, hwritten]
    refine ⟨?_, fun hfits => ?_, fun hfull => ?_⟩
    · exact haccepted.trans (ByteArray.empty_append.trans (extract_min _ room).symm)
    · have hnone : (renderer.report steps).toUTF8.data[room]? = none :=
        Array.getElem?_eq_none hfits
      rw [Delivery.result, hfault, hnone, Option.map_none]
    · have hbyte : (renderer.report steps).toUTF8.data[room]? =
          some (renderer.report steps).toUTF8[room] := Array.getElem?_eq_getElem hfull
      rw [Delivery.result, hfault, hbyte, Option.map_some]
  case text => exact fun palette => hwritten (.text palette)
  case jsonLines => exact hwritten .jsonLines
  case oneLine => exact fun e _ => Renderer.lineFeed_not_mem_text e

/-- A sink that fails leaves a prefix of what is reported on two values or on two collections of
objects, and the fault that it fails with is told. -/
theorem comparisons_failCleanly (rule : IdentityRule) :
    (∀ path a b,
      FailsCleanly (fun _ _ sink => rule.emitDiff sink path a b) (rule.walk path a b) ()) ∧
      ∀ old new,
        FailsCleanly (fun _ _ sink => Report.emitReport rule sink old new)
          (Report.steps rule old new) (Report.stats rule old new) := by
  constructor
  · intro path a b
    refine failsCleanly fun σ ε sink => ?_
    rw [rule.emitDiff_eq, bind_pure_unit]
  · intro old new
    exact failsCleanly fun σ ε sink => Report.emitReport_eq rule sink old new

end ManifestDiff
