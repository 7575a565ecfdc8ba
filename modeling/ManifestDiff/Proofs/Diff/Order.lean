import ManifestDiff.Proofs.Diff.Silence
import Mathlib.Data.List.Lex
/-!
# The order of events

The paths of the events of a comparison increase, a path before its extensions. Two events have the
same path only if the first is a header and the second, right behind it, says that the value under
the header is replaced. No other event is about a place inside a value that changed as a whole, so
the changes of a comparison are about places that do not overlap.
-/
namespace ManifestDiff

namespace Segment

/-- The order of the children of one value: keys and identities by code points, positions as
numbers. The children of a value are all of one kind, so different kinds are not compared. -/
inductive Before : Segment → Segment → Prop
  | key {k l : String} (h : k < l) : Before (.key k) (.key l)
  | index {i j : Nat} (h : i < j) : Before (.index i) (.index j)
  | identity {label id id' : String} (h : id < id') :
    Before (.identity label id) (.identity label id')

theorem Before.irrefl (s : Segment) : ¬Before s s := by
  intro h
  cases h with
  | key h => exact String.lt_irrefl _ h
  | index h => exact Nat.lt_irrefl _ h
  | identity h => exact String.lt_irrefl _ h

theorem Before.trans {s t u : Segment} (hst : Before s t) (htu : Before t u) : Before s u := by
  cases hst with
  | key h =>
    cases htu with
    | key h' => exact .key (String.lt_trans h h')
  | index h =>
    cases htu with
    | index h' => exact .index (Nat.lt_trans h h')
  | identity h =>
    cases htu with
    | identity h' => exact .identity (String.lt_trans h h')

end Segment

namespace Path

/-- Segment by segment, the first difference decides; a path comes before its extensions. -/
def Before (p q : Path) : Prop := List.Lex Segment.Before p q

theorem Before.irrefl (p : Path) : ¬Before p p :=
  List.lex_irrefl Segment.Before.irrefl p

theorem Before.trans {p q r : Path} (hpq : Before p q) (hqr : Before q r) : Before p r :=
  List.lex_trans Segment.Before.trans hpq hqr

theorem before_child (path rest : Path) (segment : Segment) :
    Before path (path.child segment ++ rest) := by
  have h := List.Lex.append_left Segment.Before (List.Lex.nil (a := segment) (l := rest)) path
  rwa [List.append_nil, ← List.singleton_append, ← List.append_assoc] at h

theorem before_siblings {s t : Segment} (h : s.Before t) (path rest rest' : Path) :
    Before (path.child s ++ rest) (path.child t ++ rest') := by
  rw [child, child, List.append_assoc, List.append_assoc]
  exact .append_left _ (.rel h) path

theorem Before.not_prefix {p q : Path} (h : Before p q) : ¬q <+: p := by
  rintro ⟨rest, rfl⟩
  cases rest with
  | nil =>
    rw [List.append_nil] at h
    exact irrefl q h
  | cons segment rest =>
    have hback : Before q (q ++ segment :: rest) := by
      rw [← List.singleton_append, ← List.append_assoc]
      exact before_child q rest segment
    exact irrefl q (hback.trans h)

end Path

namespace Event

/-- How an event stands to a later one of the same comparison. Either its path comes before the
other, which is not inside it when the event is a change; or the event is a header and the later
one replaces the value under it. -/
inductive Precedes : Event → Event → Prop
  | apart {e f : Event} {p q : Path} (he : e.path? = some p) (hf : f.path? = some q)
    (h : Path.Before p q) (hchange : e.isChange = true → ¬p <+: q) : Precedes e f
  | header {path : Path} {old new : Node} :
    Precedes (.nested path) (.modified path none old new)

def covers (place : Path) (event : Event) : Bool :=
  match event.path? with
  | some path => path.isPrefixOf place
  | none => false

theorem covers_iff {place : Path} {event : Event} :
    event.covers place = true ↔ ∃ path, event.path? = some path ∧ path <+: place := by
  rw [covers]
  cases event.path? with
  | none => simp
  | some path => simp

theorem Precedes.of_siblings {path : Path} {s t : Segment} (hst : s.Before t) {e f : Event}
    (he : e.isUnder (path.child s) = true) (hf : f.isUnder (path.child t) = true) :
    Precedes e f := by
  obtain ⟨rest, hp⟩ := (isUnder_iff).mp he
  obtain ⟨rest', hq⟩ := (isUnder_iff).mp hf
  refine .apart hp hq (Path.before_siblings hst path rest rest') ?_
  rintro _ ⟨more, hmore⟩
  rw [List.append_assoc] at hmore
  have hsegment : s = t := segment_eq hmore
  exact Segment.Before.irrefl t (hsegment ▸ hst)

theorem Precedes.eq_or_before {e f : Event} (h : Precedes e f) {p q : Path}
    (hp : e.path? = some p) (hq : f.path? = some q) : p = q ∨ Path.Before p q := by
  cases h with
  | apart hp' hq' hbefore _ =>
    rw [hp] at hp'
    rw [hq] at hq'
    cases hp'
    cases hq'
    exact Or.inr hbefore
  | header =>
    cases hp
    cases hq
    exact Or.inl rfl

theorem Precedes.same_path {e f : Event} (h : Precedes e f) (hpath : e.path? = f.path?) :
    ∃ path old new, e = .nested path ∧ f = .modified path none old new := by
  cases h with
  | apart he hf hbefore _ =>
    rw [he, hf] at hpath
    cases hpath
    exact absurd hbefore (Path.Before.irrefl _)
  | header => exact ⟨_, _, _, rfl, rfl⟩

theorem Precedes.not_between {path : Path} {old new : Node} {e : Event}
    (h : Precedes (.nested path) e) (h' : Precedes e (.modified path none old new)) : False := by
  cases h with
  | apart hp hq hbefore _ =>
    cases hp
    cases h' with
    | apart hq' hp' hbefore' _ =>
      cases hp'
      rw [hq] at hq'
      cases hq'
      exact Path.Before.irrefl _ (hbefore.trans hbefore')
    | header =>
      cases hq
      exact Path.Before.irrefl _ hbefore
  | header =>
    cases h' with
    | apart hq hp hbefore _ =>
      cases hq
      cases hp
      exact Path.Before.irrefl _ hbefore

theorem Precedes.not_overlapping {e f : Event} (h : Precedes e f) {p q : Path}
    (hp : e.path? = some p) (hq : f.path? = some q) (hchange : e.isChange = true) :
    ¬p <+: q ∧ ¬q <+: p := by
  cases h with
  | apart hp' hq' hbefore hapart =>
    rw [hp] at hp'
    rw [hq] at hq'
    cases hp'
    cases hq'
    exact ⟨hapart hchange, hbefore.not_prefix⟩
  | header => cases hchange

end Event

namespace IdentityRule

variable {rule : IdentityRule}

theorem segments?_before {a b : Node} {segments : List Segment}
    (hs : rule.segments? a b = some segments) : segments.Pairwise Segment.Before := by
  cases compared_of_segments? hs with
  | mappings xs ys =>
    rw [List.pairwise_map]
    apply List.Pairwise.imp _ (Keyed.sortKeys_increasing _)
    intro k l h
    exact .key (compareOfLessAndEq_eq_lt.mp h)
  | identities =>
    rw [List.pairwise_map]
    apply List.Pairwise.imp _ (Keyed.sortKeys_increasing _)
    intro id id' h
    exact .identity (compareOfLessAndEq_eq_lt.mp h)
  | positions =>
    rw [List.pairwise_map]
    apply List.Pairwise.imp _ List.pairwise_lt_range
    intro i j h
    exact .index h

theorem place_of_mem_diff {path : Path} {a b : Node} {e : Event} (he : e ∈ rule.diff path a b) :
    (∃ old new, e = .modified path none old new) ∨
      ∃ segment rest, e.path? = some (path.child segment ++ rest) := by
  cases h : rule.equivalent a b with
  | true =>
    rw [diff_of_equivalent h] at he
    cases he
  | false =>
    cases hs : rule.segments? a b with
    | none =>
      rw [diff_of_replaced h hs, List.mem_singleton] at he
      exact Or.inl ⟨a, b, he⟩
    | some segments =>
      rw [diff_of_pieces h hs] at he
      obtain ⟨segment, _, he⟩ := List.mem_flatMap.mp he
      obtain ⟨rest, hp⟩ := (Event.isUnder_iff).mp (pieceEvents_below path _ segment _ _ e he)
      exact Or.inr ⟨segment, rest, hp⟩

private theorem nested_precedes {path : Path} {a b : Node} :
    ∀ e ∈ rule.diff path a b, Event.Precedes (.nested path) e := by
  intro e he
  rcases place_of_mem_diff he with ⟨old, new, rfl⟩ | ⟨segment, rest, hp⟩
  · exact .header
  · exact .apart rfl hp (Path.before_child path rest segment) nofun

private theorem pieceEvents_pairwise {path : Path} {tainted : Bool} {segment : Segment}
    {v? w? : Option Node}
    (ih : ∀ v w, v? = some v → w? = some w →
      (rule.diff (path.child segment) v w).Pairwise Event.Precedes) :
    (rule.pieceEvents path tainted segment v? w?).Pairwise Event.Precedes := by
  refine pieceEvents_cases (P := List.Pairwise Event.Precedes)
    ?silent ?addition ?removal ?nested
  case silent => exact .nil
  case addition =>
    intro w _ _
    exact List.pairwise_singleton _ _
  case removal =>
    intro v _ _
    exact List.pairwise_singleton _ _
  case nested =>
    intro v w hv hw _
    exact List.pairwise_cons.mpr ⟨nested_precedes, ih v w hv hw⟩

/-- Each event of a comparison precedes all later ones. -/
theorem diff_pairwise (path : Path) (a b : Node) :
    (rule.diff path a b).Pairwise Event.Precedes := by
  refine diff_induct (P := fun _ _ _ events => events.Pairwise Event.Precedes)
    ?silent ?replaced ?pieces path a b
  case silent =>
    intro path a b _
    exact .nil
  case replaced =>
    intro path a b _ _
    exact List.pairwise_singleton _ _
  case pieces =>
    intro path a b segments _ hs ih
    rw [List.pairwise_flatMap]
    constructor
    · intro segment _
      exact pieceEvents_pairwise (ih segment)
    · apply List.Pairwise.imp _ (segments?_before hs)
      intro s t hst e he f hf
      exact .of_siblings hst (pieceEvents_below path _ s _ _ e he)
        (pieceEvents_below path _ t _ _ f hf)

/-- How the events of a comparison stand in order. -/
structure InOrder (events : List Event) : Prop where
  located : ∀ e ∈ events, (e.path?).isSome = true
  ascending : (events.filterMap Event.path?).Pairwise fun p q => p = q ∨ Path.Before p q
  repeated : ∀ (i j : Nat) (e f : Event), i < j → events[i]? = some e → events[j]? = some f →
    e.path? = f.path? → j = i + 1 ∧
      ∃ path old new, e = .nested path ∧ f = .modified path none old new
  twice : ∀ path, (events.filter fun e => e.path? = some path).length ≤ 2
  disjoint : ∀ e ∈ events, e.isChange = true → ∀ f ∈ events, ∀ p q, e.path? = some p →
    f.path? = some q → p <+: q → p = q
  covered : ∀ place, (events.filter fun e => e.isChange && e.covers place).length ≤ 1

section Pairwise

variable {events : List Event} (h : events.Pairwise Event.Precedes)
include h

private theorem precedes_of_getElem? {i j : Nat} {e f : Event} (hij : i < j)
    (hi : events[i]? = some e) (hj : events[j]? = some f) : e.Precedes f := by
  obtain ⟨hilen, rfl⟩ := List.getElem?_eq_some_iff.mp hi
  obtain ⟨hjlen, rfl⟩ := List.getElem?_eq_some_iff.mp hj
  exact List.pairwise_iff_getElem.mp h i j hilen hjlen hij

private theorem ascending_of_pairwise :
    (events.filterMap Event.path?).Pairwise fun p q => p = q ∨ Path.Before p q :=
  List.Pairwise.filterMap Event.path? (fun _ _ hef _ hp _ hq => hef.eq_or_before hp hq) h

private theorem repeated_of_pairwise {i j : Nat} {e f : Event} (hij : i < j)
    (hi : events[i]? = some e) (hj : events[j]? = some f) (hpath : e.path? = f.path?) :
    j = i + 1 ∧ ∃ path old new, e = .nested path ∧ f = .modified path none old new := by
  obtain ⟨path, old, new, rfl, rfl⟩ := (precedes_of_getElem? h hij hi hj).same_path hpath
  refine ⟨?_, path, old, new, rfl, rfl⟩
  by_contra hne
  -- an event between the two would have to come after and before one and the same path
  have hnext : i + 1 < j := by omega
  have hjlen : j < events.length := (List.getElem?_eq_some_iff.mp hj).1
  have hbetween : events[i + 1]? = some events[i + 1] := List.getElem?_eq_getElem (by omega)
  have hfirst := precedes_of_getElem? h (Nat.lt_succ_self i) hi hbetween
  have hsecond := precedes_of_getElem? h hnext hbetween hj
  exact hfirst.not_between hsecond

private theorem length_le_two {path : Path} (hpath : ∀ e ∈ events, e.path? = some path) :
    events.length ≤ 2 := by
  match events with
  | [] => exact Nat.zero_le 2
  | [_] => exact Nat.le_succ 1
  | [_, _] => exact Nat.le_refl 2
  | e :: f :: g :: rest =>
    -- the second of three events would replace the value and be its header at once
    have hef : e.Precedes f := List.rel_of_pairwise_cons h List.mem_cons_self
    have hfg : f.Precedes g := List.rel_of_pairwise_cons h.of_cons List.mem_cons_self
    have he : e.path? = some path := hpath e (by simp)
    have hf : f.path? = some path := hpath f (by simp)
    have hg : g.path? = some path := hpath g (by simp)
    obtain ⟨_, _, _, _, rfl⟩ := hef.same_path (he.trans hf.symm)
    obtain ⟨_, _, _, hheader, _⟩ := hfg.same_path (hf.trans hg.symm)
    cases hheader

private theorem disjoint_of_pairwise {e f : Event} (he : e ∈ events) (hf : f ∈ events)
    (hchange : e.isChange = true) {p q : Path} (hp : e.path? = some p) (hq : f.path? = some q)
    (hinside : p <+: q) : p = q := by
  obtain ⟨i, hi⟩ := List.getElem?_of_mem he
  obtain ⟨j, hj⟩ := List.getElem?_of_mem hf
  rcases Nat.lt_trichotomy i j with hij | rfl | hji
  · have hapart := (precedes_of_getElem? h hij hi hj).not_overlapping hp hq hchange
    exact absurd hinside hapart.1
  · rw [hi] at hj
    cases hj
    rw [hp] at hq
    exact Option.some.inj hq
  · rcases (precedes_of_getElem? h hji hj hi).eq_or_before hq hp with heq | hbefore
    · exact heq.symm
    · exact absurd hinside hbefore.not_prefix

private theorem length_le_one {place : Path}
    (hcovers : ∀ e ∈ events, e.isChange = true ∧ e.covers place = true) :
    events.length ≤ 1 := by
  match events with
  | [] => exact Nat.zero_le 1
  | [_] => exact Nat.le_refl 1
  | e :: f :: rest =>
    -- of two paths that lead to one place, one leads to the other
    have hef : e.Precedes f := List.rel_of_pairwise_cons h List.mem_cons_self
    obtain ⟨hchange, hecovers⟩ := hcovers e (by simp)
    obtain ⟨p, hp, hpplace⟩ := (Event.covers_iff).mp hecovers
    obtain ⟨q, hq, hqplace⟩ := (Event.covers_iff).mp (hcovers f (by simp)).2
    obtain ⟨hpq, hqp⟩ := hef.not_overlapping hp hq hchange
    rcases List.prefix_or_prefix_of_prefix hpplace hqplace with hinside | hinside
    · exact absurd hinside hpq
    · exact absurd hinside hqp

theorem inOrder_of_pairwise (hpath : ∀ e ∈ events, (e.path?).isSome = true) :
    InOrder events where
  located := hpath
  ascending := ascending_of_pairwise h
  repeated _ _ _ _ hij hi hj hsame := repeated_of_pairwise h hij hi hj hsame
  twice path := by
    apply length_le_two (h.filter _)
    intro e he
    simpa using List.of_mem_filter he
  disjoint _ he hchange _ hf _ _ hp hq hinside :=
    disjoint_of_pairwise h he hf hchange hp hq hinside
  covered place := by
    apply length_le_one (h.filter _)
    intro e he
    simpa using List.of_mem_filter he

end Pairwise

end IdentityRule

/-- The events of a comparison are in the order of their paths, and no place is inside two of the
changes. -/
theorem diff_inOrder (rule : IdentityRule) (path : Path) (a b : Node) :
    IdentityRule.InOrder (rule.diff path a b) := by
  apply IdentityRule.inOrder_of_pairwise (IdentityRule.diff_pairwise path a b)
  intro e he
  obtain ⟨rest, hp⟩ := (Event.isUnder_iff).mp (IdentityRule.diff_isUnder path a b e he)
  rw [hp, Option.isSome_some]

end ManifestDiff
