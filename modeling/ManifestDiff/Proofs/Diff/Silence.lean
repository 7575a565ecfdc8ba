import ManifestDiff.Proofs.Diff.Pieces
import ManifestDiff.Render.Sink
import Mathlib.Data.List.TakeWhile
/-!
# Silent comparisons and answered headers

A comparison is silent exactly on equivalent values. When it is not, it reports a change, and so it
does below every header that it emits: the events of a piece stand together, all of them below the
place that the header names.
-/
namespace ManifestDiff

namespace Event

/-- The event is about the value at the path or about one below it. -/
def isUnder (path : Path) (event : Event) : Bool :=
  match event.path? with
  | some place => path.isPrefixOf place
  | none => false

theorem isUnder_iff {path : Path} {event : Event} :
    event.isUnder path = true ↔ ∃ rest, event.path? = some (path ++ rest) := by
  rw [isUnder]
  cases hp : event.path? with
  | none => simp
  | some place =>
    rw [List.isPrefixOf_iff_prefix]
    constructor
    · rintro ⟨rest, rfl⟩
      exact ⟨rest, rfl⟩
    · rintro ⟨rest, he⟩
      exact ⟨rest, (Option.some.inj he).symm⟩

theorem isUnder_of_path? {path : Path} {event : Event} (h : event.path? = some path) :
    event.isUnder path = true :=
  (isUnder_iff).mpr ⟨[], by rw [h, List.append_nil]⟩

theorem isUnder_of_child {path : Path} {segment : Segment} {event : Event}
    (h : event.isUnder (path.child segment) = true) : event.isUnder path = true := by
  obtain ⟨rest, hp⟩ := (isUnder_iff).mp h
  exact (isUnder_iff).mpr ⟨segment :: rest, by rw [hp, Path.child, List.append_assoc]; rfl⟩

theorem segment_eq {path rest rest' : Path} {s t : Segment}
    (h : path.child s ++ rest = path.child t ++ rest') : s = t := by
  simp only [Path.child, List.append_assoc, List.cons_append, List.nil_append,
    List.append_cancel_left_eq, List.cons.injEq] at h
  exact h.1

theorem not_isUnder_of_ne {path : Path} {s t : Segment} (hst : s ≠ t) {e : Event}
    (h : e.isUnder (path.child s) = true) : e.isUnder (path.child t) = false := by
  obtain ⟨rest, hp⟩ := (isUnder_iff).mp h
  rw [Bool.eq_false_iff]
  intro ht
  obtain ⟨rest', hp'⟩ := (isUnder_iff).mp ht
  exact hst (segment_eq (Option.some.inj (hp.symm.trans hp')))

theorem filter_flatMap_isUnder {ι : Type} [DecidableEq ι] {segment : ι → Segment}
    (hinj : Function.Injective segment) {path : Path} {pieces : List ι} {f : ι → List Event}
    (hnd : pieces.Nodup)
    (hf : ∀ piece ∈ pieces, ∀ e ∈ f piece, e.isUnder (path.child (segment piece)) = true)
    (piece : ι) :
    (pieces.flatMap f).filter (isUnder (path.child (segment piece))) =
      if piece ∈ pieces then f piece else [] := by
  induction pieces with
  | nil => rfl
  | cons head rest ih =>
    obtain ⟨hhead, hrest⟩ := List.forall_mem_cons.mp hf
    obtain ⟨hnew, hnd⟩ := List.nodup_cons.mp hnd
    rw [List.flatMap_cons, List.filter_append, ih hnd hrest]
    by_cases hs : head = piece
    · subst hs
      rw [if_neg hnew, if_pos List.mem_cons_self, List.append_nil]
      exact List.filter_eq_self.mpr hhead
    · have hnone : (f head).filter (isUnder (path.child (segment piece))) = [] :=
        List.filter_eq_nil_iff.mpr fun e he => by
          simp [not_isUnder_of_ne (hinj.ne hs) (hhead e he)]
      rw [hnone, List.nil_append]
      simp [List.mem_cons, Ne.symm hs]

theorem path?_addition (path : Path) (tainted : Bool) (segment : Segment) (value : Node) :
    (addition path tainted segment value).path? = some (path.child segment) := by
  cases segment <;> rfl

theorem path?_removal (path : Path) (tainted : Bool) (segment : Segment) (value : Node) :
    (removal path tainted segment value).path? = some (path.child segment) := by
  cases segment <;> rfl

end Event

namespace IdentityRule

variable {rule : IdentityRule}

theorem pieceEvents_eq_nil_iff {path : Path} {tainted : Bool} {segment : Segment}
    {v? w? : Option Node} :
    rule.pieceEvents path tainted segment v? w? = [] ↔
      Option.Rel (fun v w => rule.equivalent v w = true) v? w? := by
  cases v? <;> cases w? <;> simp [pieceEvents]

theorem diff_eq_nil_iff {path : Path} {a b : Node} (ha : a.WellFormed) (hb : b.WellFormed) :
    rule.diff path a b = [] ↔ rule.equivalent a b = true := by
  cases h : rule.equivalent a b with
  | true => simp [diff_of_equivalent h]
  | false =>
    cases hs : rule.segments? a b with
    | none => simp [diff_of_replaced h hs]
    | some segments =>
      rw [diff_of_pieces h hs, List.flatMap_eq_nil_iff]
      simp only [pieceEvents_eq_nil_iff]
      rw [← equivalent_iff_children ha hb hs, h]

private theorem pieceEvents_isUnder {path : Path} {tainted : Bool} {segment : Segment}
    {v? w? : Option Node}
    (ih : ∀ v w, v? = some v → w? = some w → ∀ e ∈ rule.diff (path.child segment) v w,
      e.isUnder (path.child segment) = true) :
    ∀ e ∈ rule.pieceEvents path tainted segment v? w?,
      e.isUnder (path.child segment) = true := by
  refine pieceEvents_cases (P := fun events => ∀ e ∈ events, e.isUnder (path.child segment) = true)
    ?silent ?addition ?removal ?nested
  case silent => simp
  case addition =>
    intro w _ _
    rw [List.forall_mem_singleton]
    exact Event.isUnder_of_path? (Event.path?_addition path tainted segment w)
  case removal =>
    intro v _ _
    rw [List.forall_mem_singleton]
    exact Event.isUnder_of_path? (Event.path?_removal path tainted segment v)
  case nested =>
    intro v w hv hw _
    rw [List.forall_mem_cons]
    exact ⟨Event.isUnder_of_path? rfl, ih v w hv hw⟩

/-- Every event of a comparison is about the compared values or about something in them. -/
theorem diff_isUnder (path : Path) (a b : Node) :
    ∀ e ∈ rule.diff path a b, e.isUnder path = true := by
  refine diff_induct (P := fun path _ _ events => ∀ e ∈ events, e.isUnder path = true)
    ?silent ?replaced ?pieces path a b
  case silent => simp
  case replaced =>
    intro path a b _ _
    rw [List.forall_mem_singleton]
    exact Event.isUnder_of_path? rfl
  case pieces =>
    intro path a b segments _ _ ih
    rw [List.forall_mem_flatMap]
    intro segment _ e he
    exact Event.isUnder_of_child (pieceEvents_isUnder (ih segment) e he)

theorem pieceEvents_below (path : Path) (tainted : Bool) (segment : Segment)
    (v? w? : Option Node) :
    ∀ e ∈ rule.pieceEvents path tainted segment v? w?,
      e.isUnder (path.child segment) = true :=
  pieceEvents_isUnder fun v w _ _ => diff_isUnder (path.child segment) v w

theorem exists_change_of_not_equivalent (path : Path) {a b : Node} (ha : a.WellFormed)
    (hb : b.WellFormed) (h : rule.equivalent a b = false) :
    ∃ e ∈ rule.diff path a b, e.isChange = true := by
  refine diff_induct (P := fun _ a b events => a.WellFormed → b.WellFormed →
    rule.equivalent a b = false → ∃ e ∈ events, e.isChange = true)
    ?silent ?replaced ?pieces path a b ha hb h
  case silent =>
    intro path a b he _ _ h
    rw [he] at h
    cases h
  case replaced =>
    intro path a b _ _ _ _ _
    exact ⟨_, List.mem_singleton_self _, rfl⟩
  case pieces =>
    intro path a b segments h hs ih ha hb _
    have hdiffer : ¬∀ segment ∈ segments, Option.Rel (fun v w => rule.equivalent v w = true)
        (rule.child? segment a) (rule.child? segment b) := by
      rw [← equivalent_iff_children ha hb hs, h]
      exact Bool.false_ne_true
    push Not at hdiffer
    obtain ⟨segment, hm, hrel⟩ := hdiffer
    have hpiece : ∃ e ∈ rule.pieceEvents path (lengthsDiffer a b) segment
        (rule.child? segment a) (rule.child? segment b), e.isChange = true := by
      cases hv : rule.child? segment a with
      | none =>
        cases hw : rule.child? segment b with
        | none => simp [hv, hw] at hrel
        | some w => exact ⟨_, List.mem_singleton_self _, by cases segment <;> rfl⟩
      | some v =>
        cases hw : rule.child? segment b with
        | none => exact ⟨_, List.mem_singleton_self _, by cases segment <;> rfl⟩
        | some w =>
          have hvw : rule.equivalent v w = false := by simpa [hv, hw] using hrel
          obtain ⟨e, he, hchange⟩ := ih segment v w hv hw (wellFormed_of_child? ha hv)
            (wellFormed_of_child? hb hw) hvw
          rw [pieceEvents, if_neg (by simp [hvw])]
          exact ⟨e, List.mem_cons_of_mem _ he, hchange⟩
    obtain ⟨e, he, hchange⟩ := hpiece
    exact ⟨e, List.mem_flatMap.mpr ⟨segment, hm, he⟩, hchange⟩

/-- Every header is followed by events from below its place, with a change among them. -/
def HeadersAnswered (events : List Event) : Prop :=
  ∀ before place after, events = before ++ .nested place :: after →
    ∃ e ∈ after.takeWhile (Event.isUnder place), e.isChange = true

private theorem mem_takeWhile_append {p : Event → Bool} {e : Event} {xs : List Event}
    (ys : List Event) (h : e ∈ xs.takeWhile p) : e ∈ (xs ++ ys).takeWhile p := by
  induction xs with
  | nil => simp at h
  | cons x xs ih =>
    rw [List.takeWhile_cons] at h
    rw [List.cons_append, List.takeWhile_cons]
    split at h
    next hx =>
      rw [if_pos hx]
      exact (List.mem_cons.mp h).elim (fun he => he ▸ List.mem_cons_self)
        fun hm => List.mem_cons_of_mem _ (ih hm)
    next => simp at h

private theorem headersAnswered_nil : HeadersAnswered [] := by
  intro before place after h
  simp at h

private theorem headersAnswered_append {xs ys : List Event} (hx : HeadersAnswered xs)
    (hy : HeadersAnswered ys) : HeadersAnswered (xs ++ ys) := by
  intro before place after h
  rcases List.append_eq_append_iff.mp h with ⟨between, rfl, htail⟩ | ⟨rest, rfl, hrest⟩
  · exact hy between place after htail
  · cases rest with
    | nil => exact hy [] place after hrest.symm
    | cons e rest =>
      obtain ⟨rfl, rfl⟩ := List.cons.inj hrest
      obtain ⟨e, he, hchange⟩ := hx before place rest rfl
      exact ⟨e, mem_takeWhile_append ys he, hchange⟩

private theorem headersAnswered_flatMap {segments : List Segment} {f : Segment → List Event}
    (h : ∀ segment ∈ segments, HeadersAnswered (f segment)) :
    HeadersAnswered (segments.flatMap f) := by
  induction segments with
  | nil => exact headersAnswered_nil
  | cons segment segments ih =>
    obtain ⟨hhead, htail⟩ := List.forall_mem_cons.mp h
    rw [List.flatMap_cons]
    exact headersAnswered_append hhead (ih htail)

private theorem headersAnswered_singleton {e : Event} (h : ∀ place, e ≠ .nested place) :
    HeadersAnswered [e] := by
  intro before place after he
  cases before with
  | nil => exact absurd (List.cons.inj he).1 (h place)
  | cons _ before => simp at he

private theorem headersAnswered_nested {path : Path} {v w : Node}
    (hchange : ∃ e ∈ rule.diff path v w, e.isChange = true)
    (h : HeadersAnswered (rule.diff path v w)) :
    HeadersAnswered (.nested path :: rule.diff path v w) := by
  intro before place after he
  cases before with
  | nil =>
    obtain ⟨hp, rfl⟩ := List.cons.inj he
    cases hp
    rwa [List.takeWhile_eq_self_iff.mpr (diff_isUnder path v w)]
  | cons _ before => exact h before place after (List.cons.inj he).2

theorem headersAnswered_diff (path : Path) {a b : Node} (ha : a.WellFormed)
    (hb : b.WellFormed) : HeadersAnswered (rule.diff path a b) := by
  refine diff_induct (P := fun _ a b events => a.WellFormed → b.WellFormed →
    HeadersAnswered events) ?silent ?replaced ?pieces path a b ha hb
  case silent =>
    intro path a b _ _ _
    exact headersAnswered_nil
  case replaced =>
    intro path a b _ _ _ _
    exact headersAnswered_singleton fun place => Event.noConfusion
  case pieces =>
    intro path a b segments _ _ ih ha hb
    apply headersAnswered_flatMap
    intro segment _
    apply pieceEvents_cases
    case silent => exact headersAnswered_nil
    case addition =>
      intro w _ _
      exact headersAnswered_singleton fun place => by cases segment <;> exact Event.noConfusion
    case removal =>
      intro v _ _
      exact headersAnswered_singleton fun place => by cases segment <;> exact Event.noConfusion
    case nested =>
      intro v w hv hw hvw
      have hvf := wellFormed_of_child? ha hv
      have hwf := wellFormed_of_child? hb hw
      exact headersAnswered_nested (exists_change_of_not_equivalent _ hvf hwf hvw)
        (ih segment v w hv hw hvf hwf)

end IdentityRule

theorem deliver_infallible {σ : Type} (emit : σ → Event → σ × Option Empty) (state : σ)
    (steps : List Step) :
    deliver emit state steps =
      ⟨(steps.filterMap Step.event?).foldl (fun state e => (emit state e).1) state,
        steps.filterMap Step.note?, none⟩ := by
  induction steps generalizing state with
  | nil => rfl
  | cons step steps ih =>
    cases step with
    | note n =>
      rw [deliver, ih]
      rfl
    | event e =>
      rw [deliver]
      cases he : emit state e with
      | mk next fault =>
        cases fault with
        | none =>
          have hevents : (Step.event e :: steps).filterMap Step.event? =
              e :: steps.filterMap Step.event? := rfl
          have hnotes : (Step.event e :: steps).filterMap Step.note? =
              steps.filterMap Step.note? := rfl
          rw [hevents, hnotes, List.foldl_cons, he]
          exact ih next
        | some fault => cases fault

/-- With a sink that cannot fail, a comparison is silent exactly on equivalent values. It reports a
change when it reports anything, and below every header that it emits. -/
theorem diff_silent_iff_equivalent (rule : IdentityRule) (path : Path) (a b : WellFormedNode) :
    (∀ (σ : Type) (emit : σ → Event → σ × Option Empty) (state : σ),
      deliver emit state (rule.walk path a b) =
        ⟨(rule.diff path a b).foldl (fun state e => (emit state e).1) state,
          rule.diffNotes path a b, none⟩) ∧
      (rule.diff path a b = [] ↔ rule.equivalent a b = true) ∧
      (rule.diff path a b ≠ [] → ∃ e ∈ rule.diff path a b, e.isChange = true) ∧
      IdentityRule.HeadersAnswered (rule.diff path a b) := by
  refine ⟨?_, IdentityRule.diff_eq_nil_iff a.2 b.2, ?_,
    IdentityRule.headersAnswered_diff path a.2 b.2⟩
  · intro σ emit state
    exact deliver_infallible emit state (rule.walk path a b)
  · intro h
    apply IdentityRule.exists_change_of_not_equivalent path a.2 b.2
    rw [Bool.eq_false_iff]
    exact fun he => h (IdentityRule.diff_of_equivalent he)

end ManifestDiff
