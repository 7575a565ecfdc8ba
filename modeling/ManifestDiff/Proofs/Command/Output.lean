import ManifestDiff.Command.Run
import ManifestDiff.Proofs.Render.Delivery
/-!
# Written reports

A job writes the text that its settings ask for, and then what the writer has held back of it. When
the writer is full in the midst of it the job tells no numbers.
-/
namespace ManifestDiff

/-- The settings ask for this text of the events. It is painted unless the settings or the
surroundings are against it. -/
structure OutputSettings.Asks (settings : OutputSettings) (colours : Bool) (events : List Event)
    (text : String) : Prop where
  json : settings.format = .json →
    text = String.join (events.map fun e => JsonReport.text e ++ "\n")
  painted : settings.format = .text → settings.color = true → colours = true →
    text = String.join (events.map (TextReport.lines .ansi))
  plain : settings.format = .text → settings.color = false ∨ colours = false →
    text = String.join (events.map (TextReport.lines .plain))

def OutputFormat.faultOf : OutputFormat → UInt8 → OutputFault
  | .text, _ => .io
  | .json, byte => if byte = 10 then .io else .serialization

def Failure.refusal? : Failure → Option String
  | .unwritten _ refusal => some refusal
  | .unflushed refusal => some refusal
  | _ => none

def Run.refusal? (run : Run) : Option String :=
  match run.verdict with
  | .error failure => failure.refusal?
  | .ok _ => none

namespace Job

def stats (job : Job) : Stats := Report.stats job.config.identity job.old job.new

def events (job : Job) : List Event := Report.events job.config.identity job.old job.new

/-- The device gets the text of the report behind what the writer held back, or the part that fits.
-/
structure Written (job : Job) (text : String) (writer : Writer) (run : Run) : Prop where
  complete : (∀ room, writer.room = some room → (writer.held ++ text.toUTF8).size ≤ room) →
    run.writer.accepted = writer.accepted ++ (writer.held ++ text.toUTF8) ∧
      run.writer.held = .empty ∧ run.verdict = .ok job.stats
  cutOff : ∀ room, writer.room = some room → room < (writer.held ++ text.toUTF8).size →
    run.writer.accepted = writer.accepted ++ (writer.held ++ text.toUTF8).extract 0 room ∧
      run.refusal? = some writer.refusal
  fault : writer.IsPlain → ∀ room, writer.room = some room → ∀ h : room < text.toUTF8.size,
    run.verdict =
      .error (.unwritten (job.config.output.format.faultOf text.toUTF8[room]) writer.refusal)

variable {job : Job} {text : String} {writer next : Writer} {run : Run} {room : Nat}

theorem Written.of_took {passed : ByteArray} (h : writer.Took text.toUTF8 passed run.writer)
    (hheld : run.writer.held = .empty) (hverdict : run.verdict = .ok job.stats) :
    job.Written text writer run := by
  have hpassed : passed = writer.held ++ text.toUTF8 := by
    rw [← h.held, hheld, ByteArray.append_empty]
  refine ⟨fun _ => ⟨hpassed ▸ h.accepted, hheld, hverdict⟩, fun room hroom hfull => ?cutOff,
    fun hplain room hroom hfull => ?fault⟩
  case cutOff => exact absurd (hpassed ▸ h.fits room hroom) (Nat.not_le_of_lt hfull)
  case fault =>
    rw [hplain.held, ByteArray.empty_append] at hpassed
    exact absurd (hpassed ▸ h.fits room hroom) (Nat.not_le_of_lt hfull)

theorem Written.of_refused (h : writer.Refused text.toUTF8 room run.writer)
    (hrefusal : run.refusal? = some writer.refusal)
    (hfault : writer.IsPlain → ∀ hroom : room < text.toUTF8.size, run.verdict = .error
      (.unwritten (job.config.output.format.faultOf text.toUTF8[room]) writer.refusal)) :
    job.Written text writer run := by
  refine ⟨fun hfits => ?complete, fun room' hroom _ => ?cutOff,
    fun hplain room' hroom hfull => ?fault⟩
  case complete => exact absurd (hfits room h.bound) (Nat.not_le_of_lt h.full)
  case cutOff =>
    cases h.bound.symm.trans hroom
    exact ⟨h.accepted, hrefusal⟩
  case fault =>
    cases h.bound.symm.trans hroom
    exact hfault hplain hfull

/-- The end of a run that has handed its report to the writer. -/
def finish (job : Job) (notes : List Note) (writer : Writer) : Run :=
  match writer.flush with
  | (writer, false) => ⟨writer, notes, .error (.unflushed writer.refusal)⟩
  | (writer, true) => ⟨writer, notes ++ [.written job.stats], .ok job.stats⟩

theorem written_finish {passed : ByteArray} (notes : List Note)
    (h : writer.Took text.toUTF8 passed next) (hplain : writer.IsPlain → next.IsPlain) :
    job.Written text writer (job.finish notes next) := by
  have hflush := next.flush_handled
  rw [finish]
  cases hresult : next.flush with | mk last complete =>
  rw [hresult] at hflush
  cases hflush with
  | took hrest =>
    have hall := h.append hrest
    rw [ByteArray.append_empty] at hall
    exact Written.of_took hall (Writer.held_of_flush hresult).1 rfl
  | @refused room _ hrest =>
    have hall := h.refused hrest
    rw [ByteArray.append_empty] at hall
    refine Written.of_refused hall (congrArg some hall.refusal) fun hwriter _ => ?_
    -- a plain writer holds nothing back that a flush could fail on
    have hfull := hrest.full
    rw [(hplain hwriter).held] at hfull
    exact absurd hfull (Nat.not_lt_zero room)

end Job

theorem OutputSettings.asks_report (settings : OutputSettings) (colours : Bool)
    (steps : List Step) :
    settings.Asks colours (steps.filterMap Step.event?)
      ((settings.renderer colours).report steps) := by
  refine ⟨fun hformat => ?json, fun hformat hcolor hcolours => ?painted,
    fun hformat hplain => ?plain⟩
  case json =>
    have hrenderer : settings.renderer colours = .jsonLines := by rw [renderer, hformat]
    rw [hrenderer]
    rfl
  case painted =>
    have hrenderer : settings.renderer colours = .text .ansi := by
      rw [renderer, hformat, hcolor, hcolours]
      rfl
    rw [hrenderer]
    rfl
  case plain =>
    have hrenderer : settings.renderer colours = .text .plain := by
      rw [renderer, hformat, (Bool.and_eq_false_iff).mpr hplain]
      rfl
    rw [hrenderer]
    rfl

theorem OutputSettings.faultOf_renderer (settings : OutputSettings) (colours : Bool) :
    (settings.renderer colours).faultOf = settings.format.faultOf := by
  obtain ⟨color, format⟩ := settings
  cases format <;> rfl

namespace Job

variable (job : Job) (colours : Bool) (writer : Writer)

/-- The report is delivered step by step. -/
theorem write_eq : job.write colours writer =
    let delivery := deliver (job.config.output.renderer colours).emit writer
      (Report.steps job.config.identity job.old job.new)
    match delivery.fault with
    | some fault => ⟨delivery.state, delivery.notes, .error (.unwritten fault writer.refusal)⟩
    | none => job.finish delivery.notes delivery.state := by
  rw [write, Report.emitReport_eq, Emission.start_performAll, Delivery.result]
  dsimp only
  cases (deliver (job.config.output.renderer colours).emit writer
    (Report.steps job.config.identity job.old job.new)).fault <;> rfl

theorem written_write : ∃ text, job.config.output.Asks colours job.events text ∧
    job.Written text writer (job.write colours writer) := by
  have hserved := (job.config.output.renderer colours).deliver_served writer
    (Report.steps job.config.identity job.old job.new)
  refine ⟨_, job.config.output.asks_report colours _, ?_⟩
  rw [job.config.output.faultOf_renderer] at hserved
  rw [write_eq]
  dsimp only
  generalize (deliver (job.config.output.renderer colours).emit writer
    (Report.steps job.config.identity job.old job.new)) = delivery at hserved ⊢
  obtain ⟨next, notes, fault?⟩ := delivery
  cases hserved with
  | took htook hplain => exact written_finish notes htook hplain
  | @refused room _ fault hrefused hfault =>
    refine Written.of_refused hrefused rfl fun hplain hroom => ?_
    have hbyte : Option.map job.config.output.format.faultOf (some _) = some fault :=
      (congrArg _ (Array.getElem?_eq_getElem hroom)).symm.trans (hfault hplain)
    cases hbyte
    rfl

theorem verdict_write : (job.write colours writer).verdict = .ok job.stats ∨
    (job.write colours writer).refusal? = some writer.refusal ∧ writer.room ≠ none := by
  obtain ⟨text, _, hwritten⟩ := job.written_write colours writer
  rcases writer.fits_or_full (writer.held ++ text.toUTF8) with hfits | ⟨room, hroom, hfull⟩
  · exact .inl (hwritten.complete hfits).2.2
  · refine .inr ⟨(hwritten.cutOff room hroom hfull).2, ?_⟩
    rw [hroom]
    exact Option.some_ne_none room

variable {job colours writer}

theorem verdict_write_of_unbounded (h : writer.room = none) :
    (job.write colours writer).verdict = .ok job.stats :=
  (job.verdict_write colours writer).resolve_right fun hrefused => hrefused.2 h

theorem verdict_write_of_refusal (h : (job.write colours writer).refusal? = none) :
    (job.write colours writer).verdict = .ok job.stats :=
  (job.verdict_write colours writer).resolve_right fun hrefused => nomatch h.symm.trans hrefused.1

end Job

theorem run_of_load {arguments : Arguments} {files : FileSystem} {job : Job}
    (hload : (Job.load files arguments).result = .ok job) (colours : Bool) (writer : Writer) :
    (arguments.run files colours writer).verdict = (job.write colours writer).verdict ∧
      (arguments.run files colours writer).writer = (job.write colours writer).writer := by
  rw [Arguments.run]
  dsimp only
  rw [hload]
  exact ⟨rfl, rfl⟩

end ManifestDiff
