import ManifestDiff.Proofs.Diff.Pieces
import ManifestDiff.Proofs.Diff.Order
import ManifestDiff.Proofs.Number.Numeral
import ManifestDiff.Proofs.Text
/-!
# Displayed paths

Two paths may be displayed alike: the first item of the list under `container` and an element of an
identity list with the name `0` are both `container[0]`. Within one comparison this cannot happen,
because a value is compared either by key, by position or by identity. Paths that part at some value
go on there by segments of one kind, whose texts differ when no key and no identity has the
punctuation of a path in it.
-/
namespace ManifestDiff

/-- The text of the segment ends where the punctuation of a path begins. -/
def Segment.Plain : Segment → Prop
  | .key k => k ≠ "" ∧ '.' ∉ k.toList ∧ '[' ∉ k.toList
  | .index _ => True
  | .identity _ id => ']' ∉ id.toList

def Segment.mark : Segment → List Char
  | .index _ => []
  | _ => ['.']

/-- No key of the tree is empty or has a point or an opening bracket in it, and no identity of an
element has a closing bracket in it. -/
inductive IdentityRule.PlainNames (rule : IdentityRule) : Node → Prop
  | mapping {entries : List (String × Node)}
    (hkeys : ∀ entry ∈ entries, entry.1 ≠ "" ∧ '.' ∉ entry.1.toList ∧ '[' ∉ entry.1.toList)
    (h : ∀ entry ∈ entries, PlainNames rule entry.2) : PlainNames rule (.mapping entries)
  | list {items : List Node}
    (hids : rule.isMatchable items = true → ∀ id ∈ rule.identities items, ']' ∉ id.toList)
    (h : ∀ item ∈ items, PlainNames rule item) : PlainNames rule (.list items)
  | scalar (value : Scalar) : PlainNames rule (.scalar value)

namespace Path

theorem displayTail_cons (segment : Segment) (rest : List Segment) :
    (displayTail (segment :: rest)).toList =
      segment.mark ++ (segment.display.toList ++ (displayTail rest).toList) := by
  cases segment <;> simp [displayTail, Segment.mark]

theorem displayTail_append (s t : List Segment) :
    displayTail (s ++ t) = displayTail s ++ displayTail t := by
  induction s with
  | nil => simp [displayTail]
  | cons segment s ih => cases segment <;> simp [displayTail, ih, String.append_assoc]

private theorem head_displayTail (rest : List Segment) :
    ∀ c ∈ (displayTail rest).toList.head?, c = '.' ∨ c = '[' := by
  cases rest with
  | nil => simp [displayTail]
  | cons segment rest =>
    rw [displayTail_cons]
    cases segment <;> simp [Segment.mark, Segment.display]

end Path

namespace Segment

variable {s t : Segment}

private theorem Before.display_append_ne (h : s.Before t) (hs : s.Plain) (ht : t.Plain)
    (rest rest' : List Segment) :
    s.display.toList ++ (Path.displayTail rest).toList ≠
      t.display.toList ++ (Path.displayTail rest').toList := by
  intro heq
  have hne : s ≠ t := fun hst => Before.irrefl t (hst ▸ h)
  cases h with
  | @key k l _ =>
    have hplain (k : String) (hk : (Segment.key k).Plain) :
        ∀ c ∈ k.toList, (c != '.' && c != '[') = true := by
      intro c hc
      have hpoint : c ≠ '.' := fun he => hk.2.1 (he ▸ hc)
      have hbracket : c ≠ '[' := fun he => hk.2.2 (he ▸ hc)
      simp [hpoint, hbracket]
    have hstop (rest : List Segment) :
        ∀ c ∈ (Path.displayTail rest).toList.head?, (c != '.' && c != '[') = false := by
      intro c hc
      rcases Path.head_displayTail rest c hc with rfl | rfl <;> rfl
    have hkl := append_inj_of_stop (hplain k hs) (hplain l ht) (hstop rest) (hstop rest') heq
    exact hne (congrArg Segment.key (String.toList_inj.mp hkl.1))
  | @index i j _ =>
    -- the closing bracket ends the digits of either number
    simp only [display, Nat.toString_eq_ofList_toDigits, String.toList_append, String.toList_ofList,
      List.append_assoc] at heq
    have hdigits (n : Nat) : ∀ c ∈ Nat.toDigits 10 n, c.isDigit = true :=
      fun _ => Numeral.isDigit_of_mem_toDigits
    have hij := append_inj_of_stop (hdigits i) (hdigits j) (by simp) (by simp)
      (List.append_cancel_left heq)
    exact hne (congrArg Segment.index (Numeral.toDigits_inj hij.1))
  | @identity label id id' _ =>
    simp only [display, String.toList_append, List.append_assoc] at heq
    -- the label may have any punctuation in it, but siblings share it
    have hinside := List.append_cancel_left (List.append_cancel_left heq)
    have hplain (id : String) (hid : (Segment.identity label id).Plain) :
        ∀ c ∈ id.toList, (c != ']') = true := by
      intro c hc
      have hbracket : c ≠ ']' := fun he => hid (he ▸ hc)
      simp [hbracket]
    have hid := append_inj_of_stop (hplain id hs) (hplain id' ht) (by simp) (by simp) hinside
    exact hne (congrArg (Segment.identity label) (String.toList_inj.mp hid.1))

private theorem Plain.display_ne (h : s.Plain) : s.display.toList ≠ [] := by
  cases s with
  | key k => simpa [display] using h.1
  | index i => simp [display]
  | identity label id => simp [display]

private theorem Before.mark_eq (h : s.Before t) : s.mark = t.mark := by
  cases h <;> rfl

instance : Std.Irrefl Before := ⟨Before.irrefl⟩

end Segment

namespace Path

theorem before_append_left_iff (path : Path) {s t : List Segment} :
    Before (path ++ s) (path ++ t) ↔ Before s t := by
  induction path with
  | nil => rfl
  | cons segment path ih => exact List.lex_cons_iff.trans ih

private theorem displayTail_ne {s t : List Segment} (h : Before s t)
    (hs : ∀ segment ∈ s, segment.Plain) (ht : ∀ segment ∈ t, segment.Plain) :
    (displayTail s).toList ≠ (displayTail t).toList := by
  induction h with
  | @nil segment rest =>
    have hsegment := (ht segment List.mem_cons_self).display_ne
    rw [displayTail_cons]
    simp [displayTail, hsegment]
  | @cons segment s t _ ih =>
    rw [displayTail_cons, displayTail_cons]
    intro heq
    exact ih (List.forall_mem_cons.mp hs).2 (List.forall_mem_cons.mp ht).2
      (List.append_cancel_left (List.append_cancel_left heq))
  | @rel segment s segment' t h =>
    -- siblings are of one kind, so they are set off from the path by the same mark
    rw [displayTail_cons, displayTail_cons, h.mark_eq]
    intro heq
    exact h.display_append_ne (hs segment List.mem_cons_self) (ht segment' List.mem_cons_self) s t
      (List.append_cancel_left heq)

/-- Of two paths of which one comes before the other, and which go on in plain segments where they
part, the displays differ. -/
theorem display_ne {path s t : Path} (h : Before (path ++ s) (path ++ t))
    (hs : ∀ segment ∈ s, segment.Plain) (ht : ∀ segment ∈ t, segment.Plain) :
    display (path ++ s) ≠ display (path ++ t) := by
  rw [before_append_left_iff] at h
  rw [ne_eq, ← String.toList_inj]
  cases path with
  | cons segment path =>
    change (segment.display ++ displayTail (path ++ s)).toList ≠
      (segment.display ++ displayTail (path ++ t)).toList
    simp only [displayTail_append, String.toList_append, ne_eq, List.append_cancel_left_eq]
    exact displayTail_ne h hs ht
  | nil =>
    cases h with
    | @nil segment rest =>
      have hsegment := (ht segment List.mem_cons_self).display_ne
      simp [display, hsegment]
    | @cons segment s t h =>
      simp only [List.nil_append, display, String.toList_append, List.append_cancel_left_eq]
      exact displayTail_ne h (List.forall_mem_cons.mp hs).2 (List.forall_mem_cons.mp ht).2
    | @rel segment s segment' t h =>
      simp only [List.nil_append, display, String.toList_append]
      exact h.display_append_ne (hs segment List.mem_cons_self) (ht segment' List.mem_cons_self)
        s t

end Path

namespace IdentityRule

variable {rule : IdentityRule}

theorem PlainNames.named {a : Node} (h : rule.PlainNames a) : rule.Named Segment.Plain a := by
  induction h with
  | mapping hkeys _ ih => exact .mapping hkeys ih
  | list hids _ ih => exact .list hids ih
  | scalar value => exact .scalar value

variable {a b : Node}

theorem plain_of_mem_diff (path : Path) (ha : rule.Named Segment.Plain a)
    (hb : rule.Named Segment.Plain b) :
    ∀ e ∈ rule.diff path a b, ∃ s, e.path? = some (path ++ s) ∧
      ∀ segment ∈ s, segment.Plain := by
  refine diff_induct (P := fun path a b events => rule.Named Segment.Plain a →
    rule.Named Segment.Plain b →
    ∀ e ∈ events, ∃ s, e.path? = some (path ++ s) ∧ ∀ segment ∈ s, segment.Plain)
    ?silent ?replaced ?pieces path a b ha hb
  case silent =>
    intro path a b _ _ _
    exact List.forall_mem_nil _
  case replaced =>
    intro path a b _ _ _ _
    rw [List.forall_mem_singleton]
    exact ⟨[], by simp [Event.path?], List.forall_mem_nil _⟩
  case pieces =>
    intro path a b segments _ hs ih ha hb
    rw [List.forall_mem_flatMap]
    intro segment hm
    have hsegment := Named.of_segments? (fun _ => trivial) ha hb hs segment hm
    have hone : ∀ s ∈ [segment], s.Plain := List.forall_mem_singleton.mpr hsegment
    apply pieceEvents_cases (P := fun events =>
      ∀ e ∈ events, ∃ s, e.path? = some (path ++ s) ∧ ∀ segment ∈ s, segment.Plain)
    case silent => exact List.forall_mem_nil _
    case addition =>
      intro w _ _
      rw [List.forall_mem_singleton]
      exact ⟨[segment], Event.path?_addition path _ segment w, hone⟩
    case removal =>
      intro v _ _
      rw [List.forall_mem_singleton]
      exact ⟨[segment], Event.path?_removal path _ segment v, hone⟩
    case nested =>
      intro v w hv hw _
      rw [List.forall_mem_cons]
      refine ⟨⟨[segment], rfl, hone⟩, ?_⟩
      intro e he
      obtain ⟨s, hp, hplain⟩ := ih segment v w hv hw (ha.of_child? hv) (hb.of_child? hw) e he
      refine ⟨segment :: s, ?_, List.forall_mem_cons.mpr ⟨hsegment, hplain⟩⟩
      rw [hp, Path.child, List.append_assoc, List.singleton_append]

theorem paths_comparable (path : Path) (a b : Node) :
    ∀ e ∈ rule.diff path a b, ∀ f ∈ rule.diff path a b, ∀ p q, e.path? = some p →
      f.path? = some q → p = q ∨ Path.Before p q ∨ Path.Before q p := by
  intro e he f hf
  apply List.Pairwise.forall_of_forall_of_flip _ _ _ he hf
  · intro e _ p q hp hq
    exact Or.inl (Option.some.inj (hp.symm.trans hq))
  · apply List.Pairwise.imp _ (diff_pairwise path a b)
    intro e f hef p q hp hq
    exact (hef.eq_or_before hp hq).imp_right Or.inl
  · apply List.Pairwise.imp _ (diff_pairwise path a b)
    intro e f hef p q hp hq
    exact (hef.eq_or_before hq hp).imp Eq.symm Or.inr

end IdentityRule

/-- Two events of one comparison display their paths alike only if the paths are the same. -/
theorem display_eq_iff (rule : IdentityRule) (path : Path) (a b : Node) (ha : rule.PlainNames a)
    (hb : rule.PlainNames b) :
    ∀ e ∈ rule.diff path a b, ∀ f ∈ rule.diff path a b, ∃ p q, e.path? = some p ∧
      f.path? = some q ∧ (p.display = q.display ↔ p = q) := by
  intro e he f hf
  obtain ⟨s, hp, hs⟩ := IdentityRule.plain_of_mem_diff path ha.named hb.named e he
  obtain ⟨t, hq, ht⟩ := IdentityRule.plain_of_mem_diff path ha.named hb.named f hf
  refine ⟨path ++ s, path ++ t, hp, hq, ?_, congrArg Path.display⟩
  intro heq
  rcases IdentityRule.paths_comparable path a b e he f hf _ _ hp hq with hsame | hbefore | hbefore
  · exact hsame
  · exact absurd heq (Path.display_ne hbefore hs ht)
  · exact absurd heq.symm (Path.display_ne hbefore ht hs)

private def layered : IdentityRule := { label := "[0].x" }

private def layers (version : String) : Node :=
  .list [.mapping [("image", .string version), ("name", .string "a[0")]]

private theorem layers_plainNames {version : String}
    (hids : ∀ id ∈ layered.identities
      [.mapping [("image", .string version), ("name", .string "a[0")]], ']' ∉ id.toList) :
    layered.PlainNames (layers version) := by
  refine .list (fun _ => hids) (List.forall_mem_singleton.mpr (.mapping ?_ ?_))
  · simp only [List.forall_mem_cons]
    exact ⟨by decide, by decide, nofun⟩
  · simp only [List.forall_mem_cons]
    exact ⟨.scalar _, .scalar _, nofun⟩

/-- Neither the start of the paths nor the word for an element has to be free of punctuation. -/
theorem display_eq_iff_layers :
    layered.PlainNames (layers "v1") ∧ layered.PlainNames (layers "v2") ∧
      .nested [.key ".", .identity "[0].x" "a[0"] ∈
        layered.diff [.key "."] (layers "v1") (layers "v2") ∧
      .nested [.key ".", .identity "[0].x" "a[0", .key "image"] ∈
        layered.diff [.key "."] (layers "v1") (layers "v2") ∧
      Path.display [.key ".", .identity "[0].x" "a[0"] ≠
        Path.display [.key ".", .identity "[0].x" "a[0", .key "image"] := by
  have hold : layered.PlainNames (layers "v1") := layers_plainNames (by decide)
  have hnew : layered.PlainNames (layers "v2") := layers_plainNames (by decide)
  have hdiff : layered.diff [.key "."] (layers "v1") (layers "v2") =
      [.nested [.key ".", .identity "[0].x" "a[0"],
        .nested [.key ".", .identity "[0].x" "a[0", .key "image"],
        .modified [.key ".", .identity "[0].x" "a[0", .key "image"] none (.string "v1")
          (.string "v2")] := rfl
  have he : .nested [.key ".", .identity "[0].x" "a[0"] ∈
      layered.diff [.key "."] (layers "v1") (layers "v2") := by
    simp [hdiff]
  have hf : .nested [.key ".", .identity "[0].x" "a[0", .key "image"] ∈
      layered.diff [.key "."] (layers "v1") (layers "v2") := by
    simp [hdiff]
  obtain ⟨p, q, hp, hq, hiff⟩ := display_eq_iff layered _ _ _ hold hnew _ he _ hf
  cases hp
  cases hq
  exact ⟨hold, hnew, he, hf, by simp [hiff]⟩

end ManifestDiff
