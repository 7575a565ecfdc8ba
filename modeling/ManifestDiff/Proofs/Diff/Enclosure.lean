import ManifestDiff.Proofs.Diff.Silence
/-!
# Enclosing headers

Each event of a comparison has a level: that of its place if it replaces the value there, and that
of the parent if not. The events below a header follow it, and the last header before an event whose
place the event is inside of is the one that directly encloses it. That header is one level above
the event.
-/
namespace ManifestDiff

theorem Path.depth_child (path : Path) (segment : Segment) :
    (path.child segment).depth = path.depth + 1 :=
  List.length_append

namespace Event

def isReplacement : Event → Bool
  | .modified .. => true
  | _ => false

def header? : Event → Option Path
  | .nested place => some place
  | _ => none

/-- A replacement stands below its place, other events stand beside it. -/
def level : Event → Nat
  | .modified place none _ _ => place.depth
  | event => (event.path?.map Path.depth).getD 0 - 1

/-- The places of the headers that an event comes under, of those before it, in order. -/
def headersAbove (event : Event) (before : List Event) : List Path :=
  (before.filterMap header?).filter fun place => event.isUnder place

section

variable (path : Path) (tainted : Bool) (segment : Segment) (value : Node)

theorem level_nested : (nested (path.child segment)).level = path.depth := by
  simp [level, path?, Path.depth_child]

theorem level_addition : (addition path tainted segment value).level = path.depth := by
  cases segment <;> simp [addition, level, path?, Path.depth_child]

theorem level_removal : (removal path tainted segment value).level = path.depth := by
  cases segment <;> simp [removal, level, path?, Path.depth_child]

theorem isReplacement_addition :
    (addition path tainted segment value).isReplacement = false := by
  cases segment <;> rfl

theorem isReplacement_removal : (removal path tainted segment value).isReplacement = false := by
  cases segment <;> rfl

end

theorem isUnder_trans {path place : Path} {e : Event} (hplace : (nested place).isUnder path = true)
    (he : e.isUnder place = true) : e.isUnder path = true := by
  obtain ⟨rest, hrest⟩ := (isUnder_iff).mp hplace
  obtain ⟨more, hmore⟩ := (isUnder_iff).mp he
  have hpath : place = path ++ rest := Option.some.inj hrest
  exact (isUnder_iff).mpr ⟨rest ++ more, by rw [hmore, hpath, List.append_assoc]⟩

theorem headersAbove_append (e : Event) (xs ys : List Event) :
    e.headersAbove (xs ++ ys) = e.headersAbove xs ++ e.headersAbove ys := by
  rw [headersAbove, List.filterMap_append, List.filter_append]
  rfl

theorem mem_headersAbove {e : Event} {place : Path} {before : List Event} :
    place ∈ e.headersAbove before ↔ .nested place ∈ before ∧ e.isUnder place = true := by
  rw [headersAbove, List.mem_filter, List.mem_filterMap]
  apply and_congr_left
  intro _
  constructor
  · rintro ⟨h, hm, hplace⟩
    cases h with
    | nested other =>
      cases hplace
      exact hm
    | _ => cases hplace
  · intro hm
    exact ⟨_, hm, rfl⟩

end Event

namespace IdentityRule

variable {rule : IdentityRule}

/-- Every event stands one level below the last header that it comes under, and those under none
stand at the depth of the path. -/
def Enclosed (path : Path) (events : List Event) : Prop :=
  ∀ before e after, events = before ++ e :: after →
    e.level = ((e.headersAbove before).getLastD path).depth

private theorem enclosed_nil (path : Path) : Enclosed path [] := by
  intro before e after h
  simp at h

private theorem enclosed_singleton {path : Path} {e : Event} (h : e.level = path.depth) :
    Enclosed path [e] := by
  intro before e' after he
  cases before with
  | nil =>
    obtain ⟨rfl, _⟩ := List.cons.inj he
    exact h
  | cons _ before => simp at he

/-- Of two runs of events where the second comes under no header of the first, neither changes how
the other is enclosed. -/
private theorem enclosed_append {path : Path} {xs ys : List Event} (hx : Enclosed path xs)
    (hy : Enclosed path ys) (hxy : ∀ e ∈ ys, e.headersAbove xs = []) :
    Enclosed path (xs ++ ys) := by
  intro before e after h
  rcases List.append_eq_append_iff.mp h with ⟨between, rfl, htail⟩ | ⟨rest, rfl, hrest⟩
  · have he : e ∈ ys := by simp [htail]
    rw [Event.headersAbove_append, hxy e he, List.nil_append]
    exact hy between e after htail
  · cases rest with
    | nil =>
      have hys : ys = e :: after := hrest.symm
      have he : e ∈ ys := by simp [hys]
      have hbefore := hxy e he
      rw [List.append_nil] at hbefore
      rw [hbefore]
      exact hy [] e after hys
    | cons f rest =>
      obtain ⟨rfl, rfl⟩ := List.cons.inj hrest
      exact hx before e rest rfl

private theorem enclosed_flatMap {path : Path} {segments : List Segment}
    {f : Segment → List Event} (hnd : segments.Nodup)
    (hunder : ∀ segment ∈ segments, ∀ e ∈ f segment, e.isUnder (path.child segment) = true)
    (h : ∀ segment ∈ segments, Enclosed path (f segment)) : Enclosed path (segments.flatMap f) := by
  induction segments with
  | nil => exact enclosed_nil path
  | cons segment segments ih =>
    obtain ⟨hnew, hnd⟩ := List.nodup_cons.mp hnd
    obtain ⟨hhead, htail⟩ := List.forall_mem_cons.mp h
    obtain ⟨hfirst, hrest⟩ := List.forall_mem_cons.mp hunder
    rw [List.flatMap_cons]
    apply enclosed_append hhead (ih hnd hrest htail)
    intro e he
    obtain ⟨other, hother, he⟩ := List.mem_flatMap.mp he
    have hne : other ≠ segment := fun heq => hnew (heq ▸ hother)
    rw [List.eq_nil_iff_forall_not_mem]
    intro place hplace
    obtain ⟨hheader, hbelow⟩ := (Event.mem_headersAbove).mp hplace
    have hinside := Event.isUnder_trans (hfirst _ hheader) hbelow
    rw [Event.not_isUnder_of_ne hne (hrest other hother e he)] at hinside
    cases hinside

private theorem enclosed_nested {path : Path} {segment : Segment} {events : List Event}
    (hunder : ∀ e ∈ events, e.isUnder (path.child segment) = true)
    (h : Enclosed (path.child segment) events) :
    Enclosed path (.nested (path.child segment) :: events) := by
  intro before e after he
  cases before with
  | nil =>
    obtain ⟨rfl, _⟩ := List.cons.inj he
    exact Event.level_nested path segment
  | cons header before =>
    obtain ⟨rfl, hevents⟩ := List.cons.inj he
    have hbelow : e.isUnder (path.child segment) = true := hunder e (by simp [hevents])
    have habove : e.headersAbove (.nested (path.child segment) :: before) =
        path.child segment :: e.headersAbove before := by
      simp [Event.headersAbove, Event.header?, hbelow]
    rw [habove, List.getLastD_cons]
    exact h before e after hevents

theorem enclosed_diff (path : Path) (a b : Node) : Enclosed path (rule.diff path a b) := by
  refine diff_induct (P := fun path _ _ events => Enclosed path events)
    ?silent ?replaced ?pieces path a b
  case silent =>
    intro path a b _
    exact enclosed_nil path
  case replaced =>
    intro path a b _ _
    exact enclosed_singleton rfl
  case pieces =>
    intro path a b segments _ hs ih
    apply enclosed_flatMap (segments?_nodup hs)
    · intro segment _
      exact pieceEvents_below path _ segment _ _
    intro segment _
    apply pieceEvents_cases
    case silent => exact enclosed_nil path
    case addition =>
      intro w _ _
      exact enclosed_singleton (Event.level_addition path _ segment w)
    case removal =>
      intro v _ _
      exact enclosed_singleton (Event.level_removal path _ segment v)
    case nested =>
      intro v w hv hw _
      exact enclosed_nested (diff_isUnder _ v w) (ih segment v w hv hw)

end IdentityRule

end ManifestDiff
