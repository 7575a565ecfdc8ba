import ManifestDiff.Proofs.Manifest.Documents
import ManifestDiff.Proofs.Report.Restriction
import ManifestDiff.Proofs.Report.Statistics
/-!
# Vacant sections

A section may be left out, be null or be a mapping without entries. Which of these an object has
does not show in a report, but for the listing of the empty section itself: it stands in a block if
the section is there on some side and is left out if it is absent on both.
-/
namespace ManifestDiff

open Keyed

/-- The value, if it is there, has nothing in it. -/
inductive Node.Vacant : Option Node → Prop
  | absent : Vacant none
  | null : Vacant (some .null)
  | empty : Vacant (some .empty)

/-- Two mappings with the same entries, but for the sections that are vacant in both. -/
def Node.Interchangeable (a b : Node) : Prop :=
  ∃ xs ys, a = .mapping xs ∧ b = .mapping ys ∧ ∀ k, find? k xs = find? k ys ∨
    (k = "data" ∨ k = "spec") ∧ Vacant (find? k xs) ∧ Vacant (find? k ys)

def Event.isUnchanged : Event → Bool
  | .unchanged .. => true
  | _ => false

namespace Report

def Part.optional? : Part → Object → Option Node
  | .data, object => object.data
  | .spec, object => object.spec
  | _, _ => none

/-- Two objects with the same fields, and with sections of the same content. -/
structure Interchangeable (a b : Object) : Prop where
  apiVersion : a.apiVersion = b.apiVersion
  kind : a.kind = b.kind
  metadata : a.metadata = b.metadata
  data : sectionContent a.data = sectionContent b.data
  spec : sectionContent a.spec = sectionContent b.spec

/-- Of the objects that count under a key in two collections, one has the section and the other has
not. -/
def isReplaced (objects objects' : List Object) (key : ObjectKey) (part : Part) : Bool :=
  ((kept? objects key).bind part.optional?).isSome !=
    ((kept? objects' key).bind part.optional?).isSome

/-- The event is not the listing of an empty section that was replaced in its object on either
side. -/
def remains (old new old' new' : List Object) : Option ObjectKey × Event → Bool
  | (some key, .unchanged path (.mapping [])) =>
    !Part.all.any fun part =>
      path == part.path && (isReplaced old old' key part || isReplaced new new' key part)
  | _ => true

end Report

namespace Object

private theorem sectionContent_of_vacant {node? : Option Node} (h : Node.Vacant node?) :
    Report.sectionContent (presentSection node?) = .empty := by
  cases h <;> rfl

/-- A document in which vacant sections are replaced is read as an object that is interchangeable
with the one that was read before. -/
theorem ofNode_interchangeable {node node' : Node} {object : Object} {index : Nat}
    (h : node.Interchangeable node') (hread : ofNode node index = .ok object) (index' : Nat) :
    ∃ object', ofNode node' index' = .ok object' ∧ Report.Interchangeable object object' := by
  obtain ⟨xs, ys, rfl, rfl, hentry⟩ := h
  obtain ⟨root, hroot, hapi, hkind, hmetadata, hname, hns, hdata, hspec⟩ :=
    (ofNode_eq_ok_iff).mp hread
  cases hroot
  have hfield (k : String) (hk : ¬(k = "data" ∨ k = "spec")) : find? k ys = find? k xs :=
    ((hentry k).resolve_right fun hvacant => hk hvacant.1).symm
  have hsection (k : String) : Report.sectionContent (presentSection (find? k xs)) =
      Report.sectionContent (presentSection (find? k ys)) := by
    rcases hentry k with hsame | ⟨_, hx, hy⟩
    · rw [hsame]
    · rw [sectionContent_of_vacant hx, sectionContent_of_vacant hy]
  refine ⟨{ object with
    data := presentSection (find? "data" ys)
    spec := presentSection (find? "spec" ys) }, (ofNode_eq_ok_iff).mpr ⟨ys, rfl, ?_⟩, ?_⟩
  · rw [hfield "apiVersion" (by decide), hfield "kind" (by decide), hfield "metadata" (by decide)]
    exact ⟨hapi, hkind, hmetadata, hname, hns, rfl, rfl⟩
  · exact ⟨rfl, rfl, rfl, hdata ▸ hsection "data", hspec ▸ hsection "spec"⟩

end Object

namespace Report

theorem objectsOf_interchangeable {documents documents' : List Manifest.Document}
    {objects : List Object}
    (h : List.Forall₂ (fun d d' => d.node.Interchangeable d'.node) documents documents')
    (hread : Manifest.objectsOf documents = .ok objects) :
    ∃ objects', Manifest.objectsOf documents' = .ok objects' ∧
      List.Forall₂ Interchangeable objects objects' := by
  simp only [Manifest.objectsOf_eq_ok_iff] at hread ⊢
  induction h generalizing objects with
  | nil =>
    cases hread
    exact ⟨[], .nil, .nil⟩
  | cons hnode _ ih =>
    cases hread with | cons hobject hrest =>
    obtain ⟨object', hobject', hsame⟩ := Object.ofNode_interchangeable hnode hobject _
    obtain ⟨objects', hobjects', hsames⟩ := ih hrest
    exact ⟨object' :: objects', .cons hobject' hobjects', .cons hsame hsames⟩

variable {rule : IdentityRule} {old new old' new' objects objects' : List Object}
  {key : ObjectKey} {a b a' b' : Object}

theorem Interchangeable.symm (h : Interchangeable a b) : Interchangeable b a :=
  ⟨h.apiVersion.symm, h.kind.symm, h.metadata.symm, h.data.symm, h.spec.symm⟩

theorem Interchangeable.key_eq (h : Interchangeable a a') : a.key = a'.key := by
  rw [Object.key, Object.key, Object.namespaceName?, Object.namespaceName?, Object.name,
    Object.name, h.kind, h.metadata]

theorem rel_kept? (h : List.Forall₂ Interchangeable objects objects') (key : ObjectKey) :
    Option.Rel Interchangeable (kept? objects key) (kept? objects' key) := by
  have hfilter : List.Forall₂ Interchangeable (objects.filter fun object => object.key = key)
      (objects'.filter fun object => object.key = key) := by
    apply List.rel_filter _ h
    intro a a' hsame
    simp [hsame.key_eq]
  have hreverse := List.rel_reverse hfilter
  rw [kept?, kept?, List.getLast?_eq_head?_reverse, List.getLast?_eq_head?_reverse]
  generalize (objects.filter fun object => object.key = key).reverse = xs at hreverse ⊢
  generalize (objects'.filter fun object => object.key = key).reverse = ys at hreverse ⊢
  cases hreverse with
  | nil => exact .none
  | cons hsame _ => exact .some hsame

theorem keys_eq (h : List.Forall₂ Interchangeable objects objects') :
    keys objects = keys objects' := by
  ext key
  have hrel := rel_kept? h key
  rw [← kept?_isSome_iff, ← kept?_isSome_iff]
  generalize kept? objects key = x at hrel ⊢
  generalize kept? objects' key = y at hrel ⊢
  cases hrel <;> rfl

theorem onlyIn_eq (hold : List.Forall₂ Interchangeable old old')
    (hnew : List.Forall₂ Interchangeable new new') :
    onlyIn (lastByKey old) (lastByKey new) = onlyIn (lastByKey old') (lastByKey new') := by
  apply (increasing_onlyIn old new).ext (increasing_onlyIn old' new')
  intro key
  rw [mem_onlyIn, mem_onlyIn, keys_eq hold, keys_eq hnew]

theorem differ_iff (ha : Interchangeable a a') (hb : Interchangeable b b') :
    Differ rule a b ↔ Differ rule a' b' := by
  have hdata := ha.data
  have hspec := ha.spec
  have hdata' := hb.data
  have hspec' := hb.spec
  simp only [sectionContent] at hdata hspec hdata' hspec'
  rw [Differ, Differ, ha.apiVersion, ha.metadata, hb.apiVersion, hb.metadata, hdata, hspec,
    hdata', hspec']

theorem exists_kept? (h : List.Forall₂ Interchangeable objects objects')
    (ha : kept? objects key = some a) :
    ∃ a', kept? objects' key = some a' ∧ Interchangeable a a' := by
  have hrel := rel_kept? h key
  rw [ha] at hrel
  generalize kept? objects' key = x at hrel ⊢
  cases hrel with | some hsame => exact ⟨_, rfl, hsame⟩

private theorem changed_of_changed (hold : List.Forall₂ Interchangeable old old')
    (hnew : List.Forall₂ Interchangeable new new') (h : Changed rule old new key) :
    Changed rule old' new' key := by
  obtain ⟨a, b, ha, hb, hdiffer⟩ := h
  obtain ⟨a', ha', hsame⟩ := exists_kept? hold ha
  obtain ⟨b', hb', hsame'⟩ := exists_kept? hnew hb
  exact ⟨a', b', ha', hb', (differ_iff hsame hsame').mp hdiffer⟩

theorem changed_iff (hold : List.Forall₂ Interchangeable old old')
    (hnew : List.Forall₂ Interchangeable new new') :
    Changed rule old new key ↔ Changed rule old' new' key :=
  ⟨changed_of_changed hold hnew, changed_of_changed
    (List.Forall₂.flip (hold.imp fun _ _ => Interchangeable.symm))
    (List.Forall₂.flip (hnew.imp fun _ _ => Interchangeable.symm))⟩

attribute [ext] Stats

theorem stats_eq (hold : List.Forall₂ Interchangeable old old')
    (hnew : List.Forall₂ Interchangeable new new') :
    stats rule old' new' = stats rule old new := by
  have hcounts := stats_counts rule old new
  have hcounts' := stats_counts rule old' new'
  have hkeys : keys old' = keys old := (keys_eq hold).symm
  have hkeys' : keys new' = keys new := (keys_eq hnew).symm
  have hchanged : (stats rule old' new').changed = (stats rule old new).changed := by
    rw [hcounts.changed, hcounts'.changed, hkeys, hkeys']
    congr 1
    ext key
    rw [Finset.mem_filter, Finset.mem_filter, changed_iff hold hnew]
  have hadded := hcounts'.added
  have hremoved := hcounts'.removed
  have hmatched := hcounts'.matched
  rw [hkeys, hkeys', ← hcounts.added] at hadded
  rw [hkeys, hkeys', ← hcounts.removed] at hremoved
  rw [hkeys, hkeys', ← hcounts.matched] at hmatched
  have hunchanged : (stats rule old' new').unchanged = (stats rule old new).unchanged := by omega
  exact Stats.ext hadded hremoved hchanged hunchanged

private theorem eq_empty_of_equivalent {node : Node}
    (h : rule.equivalent .empty node = true ∨ rule.equivalent node .empty = true) :
    node = .empty := by
  cases node with
  | mapping entries =>
    cases entries with
    | nil => rfl
    | cons entry entries =>
      simp [Node.empty, IdentityRule.equivalent, Node.equal, Node.equalEntries] at h
  | list items => simp [Node.empty, IdentityRule.equivalent] at h
  | scalar value => simp [Node.empty, IdentityRule.equivalent] at h

private theorem isSome_ne_of_replaced {x x' : Option Node}
    (h : sectionContent x = sectionContent x') (hne : x ≠ x') :
    sectionContent x = .empty ∧ x.isSome ≠ x'.isSome := by
  cases x with
  | none => cases x' <;> simp_all [sectionContent]
  | some v => cases x' <;> simp_all [sectionContent]

private theorem sectionEvents_of_empty (path : Path) {x y : Option Node}
    (hx : sectionContent x = .empty) (hy : sectionContent y = .empty) :
    ∀ e ∈ sectionEvents rule path x y, e = .unchanged path .empty := by
  have hequivalent : sectionsEquivalent rule x y = true := by
    rw [sectionsEquivalent, hx, hy]
    rfl
  have hpresent : ∀ present, x.or y = some present → present = .empty := by
    intro present h
    cases x with
    | none =>
      rw [Option.none_or] at h
      rwa [h] at hy
    | some v =>
      cases h
      exact hx
  rw [sectionEvents]
  cases h : x.or y with
  | none => exact List.forall_mem_nil _
  | some present => simp [hequivalent, hpresent present h]

def SameOrListed (path : Path) (replaced : Prop) (events events' : List Event) : Prop :=
  events = events' ∨ replaced ∧ (∀ e ∈ events, e = .unchanged path .empty) ∧
    ∀ e ∈ events', e = .unchanged path .empty

private theorem sectionEvents_sameOrListed (path : Path) {x y x' y' : Option Node}
    (hx : sectionContent x = sectionContent x') (hy : sectionContent y = sectionContent y') :
    SameOrListed path (x.isSome ≠ x'.isSome ∨ y.isSome ≠ y'.isSome)
      (sectionEvents rule path x y) (sectionEvents rule path x' y') := by
  have hsame : sectionsEquivalent rule x' y' = sectionsEquivalent rule x y := by
    rw [sectionsEquivalent, sectionsEquivalent, hx, hy]
  cases hequivalent : sectionsEquivalent rule x y with
  | false =>
    -- a section is there on either side of the comparison, as two absent ones are equivalent
    have hpresent {u v : Option Node} (h : sectionsEquivalent rule u v = false) :
        ∃ present, u.or v = some present := by
      cases u with
      | some w => exact ⟨w, rfl⟩
      | none =>
        cases v with
        | some w => exact ⟨w, rfl⟩
        | none => cases h
    obtain ⟨present, hp⟩ := hpresent hequivalent
    obtain ⟨present', hp'⟩ := hpresent (hsame.trans hequivalent)
    left
    simp [sectionEvents, hp, hp', hsame, hequivalent, hx, hy]
  | true =>
    by_cases hxx : x = x'
    · by_cases hyy : y = y'
      · exact .inl (by rw [hxx, hyy])
      · obtain ⟨hempty, hne⟩ := isSome_ne_of_replaced hy hyy
        rw [sectionsEquivalent, hempty] at hequivalent
        have hempty' := eq_empty_of_equivalent (.inr hequivalent)
        exact .inr ⟨.inr hne, sectionEvents_of_empty path hempty' hempty,
          sectionEvents_of_empty path (hx ▸ hempty') (hy ▸ hempty)⟩
    · obtain ⟨hempty, hne⟩ := isSome_ne_of_replaced hx hxx
      rw [sectionsEquivalent, hempty] at hequivalent
      have hempty' := eq_empty_of_equivalent (.inl hequivalent)
      exact .inr ⟨.inl hne, sectionEvents_of_empty path hempty hempty',
        sectionEvents_of_empty path (hx ▸ hempty) (hy ▸ hempty')⟩

theorem partEvents_sameOrListed (ha : Interchangeable a a') (hb : Interchangeable b b')
    (part : Part) :
    SameOrListed part.path
      ((part.optional? a).isSome ≠ (part.optional? a').isSome ∨
        (part.optional? b).isSome ≠ (part.optional? b').isSome)
      (partEvents rule a b part) (partEvents rule a' b' part) := by
  cases part with
  | apiVersion => exact .inl (by rw [partEvents, partEvents, ha.apiVersion, hb.apiVersion])
  | kind => exact .inl (by rw [partEvents, partEvents, ha.kind, hb.kind])
  | metadata => exact .inl (by rw [partEvents, partEvents, ha.metadata, hb.metadata])
  | data => exact sectionEvents_sameOrListed _ ha.data hb.data
  | spec => exact sectionEvents_sameOrListed _ ha.spec hb.spec

/-- The events about an object, each with the key of it, without the listings of empty sections
that were replaced. -/
def remaining (old new old' new' : List Object) (key : ObjectKey) (events : List Event) :
    List (Option ObjectKey × Event) :=
  (events.map fun e => (some key, e)).filter (remains old new old' new')

private theorem remaining_of_sameOrListed {part : Part} {events events' : List Event}
    {replaced : Prop} (h : SameOrListed part.path replaced events events')
    (hreplaced : replaced → (isReplaced old old' key part || isReplaced new new' key part) = true) :
    remaining old new old' new' key events = remaining old new old' new' key events' := by
  rcases h with rfl | ⟨hr, hevents, hevents'⟩
  · rfl
  · have hgone : remains old new old' new' (some key, .unchanged part.path .empty) = false := by
      have hm : part ∈ Part.all := by cases part <;> decide
      simp only [remains, Node.empty, Bool.not_eq_false', List.any_eq_true]
      exact ⟨part, hm, by simp [hreplaced hr]⟩
    have hnone (events : List Event) (h : ∀ e ∈ events, e = .unchanged part.path .empty) :
        remaining old new old' new' key events = [] := by
      rw [remaining, List.filter_eq_nil_iff, List.forall_mem_map]
      intro e he
      rw [h e he, hgone]
      exact Bool.false_ne_true
    rw [hnone events hevents, hnone events' hevents']

private theorem remaining_pairEvents (hold : List.Forall₂ Interchangeable old old')
    (hnew : List.Forall₂ Interchangeable new new') (ha : kept? old key = some a)
    (hb : kept? new key = some b) (ha' : kept? old' key = some a')
    (hb' : kept? new' key = some b') :
    remaining old new old' new' key (pairEvents rule (key, a, b)) =
      remaining old new old' new' key (pairEvents rule (key, a', b')) := by
  obtain ⟨_, ha'', hsame⟩ := exists_kept? hold ha
  obtain ⟨_, hb'', hsame'⟩ := exists_kept? hnew hb
  cases ha'.symm.trans ha''
  cases hb'.symm.trans hb''
  have hparts : ∀ part ∈ Part.all, remaining old new old' new' key (partEvents rule a b part) =
      remaining old new old' new' key (partEvents rule a' b' part) := by
    intro part _
    apply remaining_of_sameOrListed (partEvents_sameOrListed hsame hsame' part)
    simp [isReplaced, ha, ha', hb, hb']
  simp only [remaining, pairEvents, objectEvents, List.map_cons, List.filter_cons, List.map_flatMap,
    List.filter_flatMap] at hparts ⊢
  rw [List.flatMap_congr hparts]

private theorem map_changedPairs (hold : List.Forall₂ Interchangeable old old')
    (hnew : List.Forall₂ Interchangeable new new') :
    ((changedPairs rule old new).map fun pair =>
        remaining old new old' new' pair.1 (pairEvents rule pair)) =
      (changedPairs rule old' new').map fun pair =>
        remaining old new old' new' pair.1 (pairEvents rule pair) := by
  have hkeys : (changedPairs rule old new).map Prod.fst =
      (changedPairs rule old' new').map Prod.fst := by
    apply (sorted_changedPairs rule old new).increasing.ext
      (sorted_changedPairs rule old' new').increasing
    intro key
    rw [mem_map_fst_changedPairs, mem_map_fst_changedPairs, changed_iff hold hnew]
  -- the pairs correspond by their keys, and under each key by the objects that count
  rw [← List.forall₂_eq_eq_eq, List.forall₂_map_left_iff, List.forall₂_map_right_iff,
    List.forall₂_iff_zip] at hkeys ⊢
  refine ⟨hkeys.1, ?_⟩
  rintro ⟨key, a, b⟩ ⟨key', a', b'⟩ hm
  obtain rfl : key = key' := hkeys.2 hm
  obtain ⟨ha, hb, _⟩ := (mem_changedPairs).mp (List.of_mem_zip hm).1
  obtain ⟨ha', hb', _⟩ := (mem_changedPairs).mp (List.of_mem_zip hm).2
  exact remaining_pairEvents hold hnew ha hb ha' hb'

private theorem filter_attributed (rule : IdentityRule) (xs ys : List Object) :
    (attributed none (events rule xs ys)).filter (remains old new old' new') =
      (groups rule xs ys).flatMap fun group =>
        remaining old new old' new' group.1 group.2 := by
  rw [events_eq_groups, attributed_groups none isGroup_of_mem_groups, List.filter_flatMap]
  rfl

theorem remains_eq (hold : List.Forall₂ Interchangeable old old')
    (hnew : List.Forall₂ Interchangeable new new') :
    (attributed none (events rule old new)).filter (remains old new old' new') =
      (attributed none (events rule old' new')).filter (remains old new old' new') := by
  rw [filter_attributed, filter_attributed, groups, groups, onlyIn_eq hold hnew,
    onlyIn_eq hnew hold]
  simp only [List.flatMap_append, List.flatMap_map]
  congr 1
  exact congrArg List.flatten (map_changedPairs hold hnew)

private theorem filter_isUnchanged (old new old' new' : List Object) (stream : List Event) :
    stream.filter (fun e => !e.isUnchanged) =
      (((attributed none stream).filter (remains old new old' new')).filter
        fun entry => !entry.2.isUnchanged).map Prod.snd := by
  have hremains : ∀ entry : Option ObjectKey × Event,
      (!entry.2.isUnchanged && remains old new old' new' entry) = !entry.2.isUnchanged := by
    rintro ⟨key?, e⟩
    cases e <;> cases key? <;> simp [Event.isUnchanged, remains]
  have hsnd : (attributed none stream).map Prod.snd = stream := map_snd_attributed none stream
  simp only [List.filter_filter, hremains]
  conv_lhs => rw [← hsnd, List.filter_map]
  rfl

/-- Absent, null and empty sections are interchangeable. Documents in which some were replaced by
others are still read as objects, the numbers of the report on them are the same, and so are its
events, but for those that list an empty section of an object in which it was replaced. -/
theorem report_of_interchanged (rule : IdentityRule)
    {documents documents' others others' : List Manifest.Document} {old new : List Object}
    (hdocuments : List.Forall₂ (fun d d' => d.node.Interchangeable d'.node) documents documents')
    (hothers : List.Forall₂ (fun d d' => d.node.Interchangeable d'.node) others others')
    (hold : Manifest.objectsOf documents = .ok old)
    (hnew : Manifest.objectsOf others = .ok new) :
    ∃ old' new', Manifest.objectsOf documents' = .ok old' ∧
      Manifest.objectsOf others' = .ok new' ∧
      stats rule old' new' = stats rule old new ∧
      (events rule old' new').filter (fun e => !e.isUnchanged) =
        (events rule old new).filter (fun e => !e.isUnchanged) ∧
      (attributed none (events rule old' new')).filter (remains old new old' new') =
        (attributed none (events rule old new)).filter (remains old new old' new') := by
  obtain ⟨old', hold', hsame⟩ := objectsOf_interchangeable hdocuments hold
  obtain ⟨new', hnew', hsame'⟩ := objectsOf_interchangeable hothers hnew
  have hremains := @remains_eq rule _ _ _ _ hsame hsame'
  refine ⟨old', new', hold', hnew', stats_eq hsame hsame', ?_, hremains.symm⟩
  rw [filter_isUnchanged old new old' new' (events rule old' new'),
    filter_isUnchanged old new old' new' (events rule old new), hremains]

private def job (completions : String) (data : List (String × Node)) : Manifest.Document where
  index := 1
  node := .mapping (("apiVersion", .string "batch/v1") :: data ++
    [("kind", .string "Job"), ("metadata", .mapping [("name", .string "a")]),
      ("spec", .string completions)])

/-- A null in the place of an empty section takes the listing of it out of the report. -/
theorem report_of_interchanged_jobs :
    List.Forall₂ (fun d d' => d.node.Interchangeable d'.node)
        [job "1" [("data", .empty)]] [job "1" [("data", .null)]] ∧
      List.Forall₂ (fun d d' => d.node.Interchangeable d'.node) [job "2" []] [job "2" []] ∧
      ∃ old new old' new', Manifest.objectsOf [job "1" [("data", .empty)]] = .ok old ∧
        Manifest.objectsOf [job "2" []] = .ok new ∧
        Manifest.objectsOf [job "1" [("data", .null)]] = .ok old' ∧
        Manifest.objectsOf [job "2" []] = .ok new' ∧
        stats {} old' new' = stats {} old new ∧
        (events {} old' new').filter (fun e => !e.isUnchanged) =
          (events {} old new).filter (fun e => !e.isUnchanged) ∧
        (events {} old new).length = (events {} old' new').length + 1 := by
  have hdata : (job "1" [("data", .empty)]).node.Interchangeable
      (job "1" [("data", .null)]).node := by
    refine ⟨_, _, rfl, rfl, fun k => ?_⟩
    by_cases hk : k = "data"
    · subst hk
      exact .inr ⟨.inl rfl, .empty, .null⟩
    · left
      by_cases hapi : k = "apiVersion"
      · subst hapi
        rfl
      · simp only [List.cons_append, List.nil_append, find?_cons_of_ne hapi, find?_cons_of_ne hk]
  have hsame : (job "2" []).node.Interchangeable (job "2" []).node :=
    ⟨_, _, rfl, rfl, fun _ => .inl rfl⟩
  have hdocuments : List.Forall₂ (fun d d' => d.node.Interchangeable d'.node)
      [job "1" [("data", .empty)]] [job "1" [("data", .null)]] := .cons hdata .nil
  have hothers : List.Forall₂ (fun d d' => d.node.Interchangeable d'.node)
      [job "2" []] [job "2" []] := .cons hsame .nil
  obtain ⟨old', new', hold', hnew', hstats, hevents, _⟩ :=
    report_of_interchanged {} hdocuments hothers rfl rfl
  refine ⟨hdocuments, hothers, _, _, old', new', rfl, rfl, hold', hnew', hstats, hevents, ?_⟩
  cases hold'
  cases hnew'
  rfl

end Report
end ManifestDiff
