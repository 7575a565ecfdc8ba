import ManifestDiff.Proofs.Diff.Pieces
/-!
# Comparisons at another place

The path of a comparison and the word of its rule say where a difference is and play no part in
finding it. At another path the same steps are taken, with the one beginning of their paths in place
of the other, and under another word they differ in that word alone.
-/
namespace ManifestDiff

def Segment.relabel (old new : String) : Segment → Segment
  | .identity label id => .identity (if label = old then new else label) id
  | segment => segment

def Path.relabelBelow (depth : Nat) (old new : String) (path : Path) : Path :=
  path.take depth ++ (path.drop depth).map (Segment.relabel old new)

def Event.mapPath (f : Path → Path) : Event → Event
  | .sectionHeader path => .sectionHeader (f path)
  | .unchanged path value => .unchanged (f path) value
  | .added path value => .added (f path) value
  | .removed path value => .removed (f path) value
  | .nested path => .nested (f path)
  | .modified path key old new => .modified (f path) key old new
  | .structuralAddition path identity value tainted =>
    .structuralAddition (f path) identity value tainted
  | .structuralRemoval path identity value tainted =>
    .structuralRemoval (f path) identity value tainted
  | event => event

def Note.mapPath (f : Path → Path) : Note → Note
  | .unmatched path => .unmatched (f path)
  | note => note

def Step.mapPath (f : Path → Path) : Step → Step
  | .event e => .event (e.mapPath f)
  | .note n => .note (n.mapPath f)

def IdentityRule.withLabel (rule : IdentityRule) (label : String) : IdentityRule :=
  { rule with label }

namespace Segment

theorem relabel_self (label : String) (segment : Segment) :
    segment.relabel label label = segment := by
  cases segment with
  | identity word id =>
    by_cases hword : word = label
    · simp [relabel, hword]
    · simp [relabel, hword]
  | _ => rfl

end Segment

namespace Path

theorem relabelBelow_append (path rest : Path) (old new : String) :
    relabelBelow path.length old new (path ++ rest) =
      path ++ rest.map (Segment.relabel old new) := by
  simp [relabelBelow]

end Path

namespace Event

theorem mapPath_mapPath (f g : Path → Path) (event : Event) :
    (event.mapPath f).mapPath g = event.mapPath (g ∘ f) := by
  cases event <;> rfl

variable {f : Path → Path} {old new : String} {path : Path} {segment : Segment}

theorem addition_relabel (hf : f (path.child segment) = (f path).child (segment.relabel old new))
    (tainted : Bool) (value : Node) :
    addition (f path) tainted (segment.relabel old new) value =
      (addition path tainted segment value).mapPath f := by
  cases segment <;> simp [addition, mapPath, hf, Segment.relabel]

theorem removal_relabel (hf : f (path.child segment) = (f path).child (segment.relabel old new))
    (tainted : Bool) (value : Node) :
    removal (f path) tainted (segment.relabel old new) value =
      (removal path tainted segment value).mapPath f := by
  cases segment <;> simp [removal, mapPath, hf, Segment.relabel]

end Event

namespace Note

theorem mapPath_mapPath (f g : Path → Path) (note : Note) :
    (note.mapPath f).mapPath g = note.mapPath (g ∘ f) := by
  cases note <;> rfl

end Note

namespace Step

theorem filterMap_event?_mapPath (f : Path → Path) (steps : List Step) :
    (steps.map (mapPath f)).filterMap event? =
      (steps.filterMap event?).map (Event.mapPath f) := by
  rw [List.filterMap_map, List.map_filterMap]
  apply List.filterMap_congr
  intro step _
  cases step <;> rfl

theorem filterMap_note?_mapPath (f : Path → Path) (steps : List Step) :
    (steps.map (mapPath f)).filterMap note? = (steps.filterMap note?).map (Note.mapPath f) := by
  rw [List.filterMap_map, List.map_filterMap]
  apply List.filterMap_congr
  intro step _
  cases step <;> rfl

end Step

namespace IdentityRule

variable {rule : IdentityRule} {label : String}

theorem index_withLabel (items : List Node) :
    (rule.withLabel label).index items = rule.index items := by
  induction items with
  | nil => rfl
  | cons item items ih => rw [index, index, ih]; rfl

theorem matchesByIdentity_withLabel (xs ys : List Node) :
    (rule.withLabel label).matchesByIdentity xs ys = rule.matchesByIdentity xs ys := by
  rw [matchesByIdentity, matchesByIdentity, index_withLabel, index_withLabel]
  rfl

mutual

theorem equivalent_withLabel :
    ∀ a b : Node, (rule.withLabel label).equivalent a b = rule.equivalent a b
  | .mapping xs, .mapping ys => by
    rw [equivalent, equivalent, equivalentEntries_withLabel xs ys]
  | .list xs, .list ys => by
    rw [equivalent, equivalent, matchesByIdentity_withLabel, equivalentElements_withLabel xs ys,
      equivalentItems_withLabel xs ys]
  | .scalar _, .scalar _ => rfl
  | .mapping _, .list _ | .mapping _, .scalar _ | .list _, .mapping _ | .list _, .scalar _
  | .scalar _, .mapping _ | .scalar _, .list _ => rfl

private theorem equivalentEntries_withLabel : ∀ xs ys : List (String × Node),
    (rule.withLabel label).equivalentEntries xs ys = rule.equivalentEntries xs ys
  | [], _ => rfl
  | (k, v) :: xs, ys => by
    rw [equivalentEntries, equivalentEntries, equivalentEntries_withLabel xs ys]
    cases Keyed.find? k ys with
    | none => rfl
    | some w => simp only [equivalent_withLabel v w]

private theorem equivalentElements_withLabel : ∀ xs ys : List Node,
    (rule.withLabel label).equivalentElements xs ys = rule.equivalentElements xs ys
  | [], _ => rfl
  | v :: xs, ys => by
    have hfound : ((rule.withLabel label).identityOf v).bind ((rule.withLabel label).find? · ys) =
        (rule.identityOf v).bind (rule.find? · ys) := rfl
    rw [equivalentElements, equivalentElements, equivalentElements_withLabel xs ys, hfound]
    cases (rule.identityOf v).bind (rule.find? · ys) with
    | none => rfl
    | some w => simp only [equivalent_withLabel v w]

private theorem equivalentItems_withLabel : ∀ xs ys : List Node,
    (rule.withLabel label).equivalentItems xs ys = rule.equivalentItems xs ys
  | v :: xs, w :: ys => by
    rw [equivalentItems, equivalentItems, equivalent_withLabel v w,
      equivalentItems_withLabel xs ys]
  | [], _ => rfl
  | _ :: _, [] => rfl

end

theorem strategy?_withLabel (a b : Node) :
    (rule.withLabel label).strategy? a b = rule.strategy? a b := by
  have h : (rule.withLabel label).equivalent a b = rule.equivalent a b := equivalent_withLabel a b
  cases a with
  | list xs =>
    cases b with
    | list ys =>
      simp only [strategy?, h]
      rfl
    | _ => simp only [strategy?, h]
  | _ => cases b <;> simp only [strategy?, h]

theorem segments?_withLabel (a b : Node) :
    (rule.withLabel label).segments? a b =
      (rule.segments? a b).map (List.map (Segment.relabel rule.label label)) := by
  cases a with
  | mapping xs =>
    cases b with
    | mapping ys => simp [segments?, Function.comp_def, Segment.relabel]
    | _ => rfl
  | list xs =>
    cases b with
    | list ys =>
      rw [segments?, segments?, matchesByIdentity_withLabel]
      have hsame (items : List Node) :
          (rule.withLabel label).identities items = rule.identities items := rfl
      have hlabel : (rule.withLabel label).label = label := rfl
      cases rule.matchesByIdentity xs ys with
      | true => simp [hsame, hlabel, Function.comp_def, Segment.relabel]
      | false =>
        by_cases hlen : xs.length = ys.length
        · simp [hlen, Function.comp_def, Segment.relabel]
        · simp [hlen]
    | _ => rfl
  | scalar s => cases b <;> rfl

private theorem child?_withLabel {a b : Node} {segments : List Segment}
    (hs : rule.segments? a b = some segments) {segment : Segment} (hm : segment ∈ segments)
    (node : Node) :
    (rule.withLabel label).child? (segment.relabel rule.label label) node =
      rule.child? segment node := by
  have hmatchable (items : List Node) :
      (rule.withLabel label).isMatchable items = rule.isMatchable items := by
    rw [isMatchable, isMatchable, index_withLabel]
    rfl
  have hlabel : (rule.withLabel label).label = label := rfl
  cases compared_of_segments? hs with
  | mappings xs ys =>
    obtain ⟨k, _, rfl⟩ := List.mem_map.mp hm
    cases node <;> rfl
  | identities =>
    obtain ⟨id, _, rfl⟩ := List.mem_map.mp hm
    cases node with
    | list items =>
      have hfind : (rule.withLabel label).find? id items = rule.find? id items := rfl
      simp [child?, Segment.relabel, hmatchable, hlabel, hfind]
    | _ => rfl
  | positions =>
    obtain ⟨i, _, rfl⟩ := List.mem_map.mp hm
    cases node <;> rfl

variable {f : Path → Path}

private theorem fallbackSteps_withLabel (path : Path) (a b : Node) :
    (rule.withLabel label).fallbackSteps (f path) a b =
      (rule.fallbackSteps path a b).map (Step.mapPath f) := by
  have hlook (xs ys : List Node) :
      (rule.withLabel label).areIdentityLists xs ys = rule.areIdentityLists xs ys := rfl
  cases a with
  | list xs =>
    cases b with
    | list ys =>
      rw [fallbackSteps, fallbackSteps, hlook, matchesByIdentity_withLabel]
      split <;> rfl
    | _ => rfl
  | mapping xs => cases b <;> rfl
  | scalar s => cases b <;> rfl

private theorem pieceSteps_withLabel {path : Path} {tainted : Bool} {segment : Segment}
    {v? w? : Option Node}
    (hf : f (path.child segment) = (f path).child (segment.relabel rule.label label))
    (ih : ∀ v w, v? = some v → w? = some w →
      (rule.withLabel label).walk (f (path.child segment)) v w =
        (rule.walk (path.child segment) v w).map (Step.mapPath f)) :
    (rule.withLabel label).pieceSteps (f path) tainted (segment.relabel rule.label label) v? w? =
      (rule.pieceSteps path tainted segment v? w?).map (Step.mapPath f) := by
  cases v? with
  | none =>
    cases w? with
    | none => rfl
    | some w =>
      rw [pieceSteps, pieceSteps, List.map_singleton, Step.mapPath, Event.addition_relabel hf]
  | some v =>
    cases w? with
    | none =>
      rw [pieceSteps, pieceSteps, List.map_singleton, Step.mapPath, Event.removal_relabel hf]
    | some w =>
      rw [pieceSteps, pieceSteps, equivalent_withLabel, ← hf]
      split
      · rfl
      · rw [List.map_cons, ← ih v w rfl rfl]
        rfl

/-- Where a map of paths relabels each further segment, the comparison under the relabelled rule
takes the mapped steps. -/
theorem walk_mapPath
    (hf : ∀ path segment, f (path.child segment) =
      (f path).child (segment.relabel rule.label label)) (path : Path) (a b : Node) :
    (rule.withLabel label).walk (f path) a b = (rule.walk path a b).map (Step.mapPath f) := by
  induction a using induct_child rule generalizing path b with
  | step a ih =>
    have hequivalent := @equivalent_withLabel rule label a b
    have hsegments := @segments?_withLabel rule label a b
    cases h : rule.equivalent a b with
    | true => rw [walk_of_equivalent h, walk_of_equivalent (hequivalent.trans h), List.map_nil]
    | false =>
      cases hs : rule.segments? a b with
      | none =>
        rw [hs] at hsegments
        rw [walk_of_replaced h hs, walk_of_replaced (hequivalent.trans h) hsegments,
          List.map_append, fallbackSteps_withLabel]
        rfl
      | some segments =>
        rw [hs] at hsegments
        rw [walk_of_pieces h hs, walk_of_pieces (hequivalent.trans h) hsegments, List.map_append,
          List.map_flatMap, List.flatMap_map, fallbackSteps_withLabel]
        congr 1
        apply List.flatMap_congr
        intro segment hm
        rw [child?_withLabel hs hm, child?_withLabel hs hm]
        apply pieceSteps_withLabel (hf path segment)
        intro v w hv _
        exact ih segment v hv (path.child segment) w

theorem walk_eq_below (rule : IdentityRule) (path : Path) (a b : Node) :
    rule.walk path a b = (rule.walk .root a b).map (Step.mapPath (path ++ ·)) := by
  have hbelow : ∀ (place : Path) (segment : Segment), path ++ place.child segment =
      Path.child (path ++ place) (segment.relabel rule.label rule.label) := by
    intro place segment
    rw [Segment.relabel_self, Path.child, Path.child, List.append_assoc]
  have h := @walk_mapPath rule rule.label _ hbelow .root a b
  rwa [Path.root, List.append_nil] at h

theorem walk_withLabel (rule : IdentityRule) (label : String) (path : Path) (a b : Node) :
    (rule.withLabel label).walk path a b =
      (rule.walk .root a b).map
        (Step.mapPath fun place => path ++ place.map (Segment.relabel rule.label label)) := by
  have h := @walk_mapPath rule label
    (fun place => path ++ place.map (Segment.relabel rule.label label))
    (by simp [Path.child]) .root a b
  rwa [Path.root, List.map_nil, List.append_nil] at h

theorem diff_eq_below (rule : IdentityRule) (path : Path) (a b : Node) :
    rule.diff path a b = (rule.diff .root a b).map (Event.mapPath (path ++ ·)) := by
  rw [diff, diff, walk_eq_below, Step.filterMap_event?_mapPath]

theorem diffNotes_eq_below (rule : IdentityRule) (path : Path) (a b : Node) :
    rule.diffNotes path a b = (rule.diffNotes .root a b).map (Note.mapPath (path ++ ·)) := by
  rw [diffNotes, diffNotes, walk_eq_below, Step.filterMap_note?_mapPath]

private theorem relabelBelow_comp_append (path : Path) (old new : String) :
    Path.relabelBelow path.length old new ∘ (path ++ ·) =
      fun place => path ++ place.map (Segment.relabel old new) :=
  funext fun place => Path.relabelBelow_append path place old new

theorem diff_withLabel (rule : IdentityRule) (label : String) (path : Path) (a b : Node) :
    (rule.withLabel label).diff path a b = (rule.diff path a b).map
      (Event.mapPath (Path.relabelBelow path.length rule.label label)) := by
  rw [diff_eq_below rule, List.map_map, diff, diff, walk_withLabel, Step.filterMap_event?_mapPath]
  apply List.map_congr_left
  intro e _
  rw [Function.comp_apply, Event.mapPath_mapPath, relabelBelow_comp_append]

theorem diffNotes_withLabel (rule : IdentityRule) (label : String) (path : Path) (a b : Node) :
    (rule.withLabel label).diffNotes path a b = (rule.diffNotes path a b).map
      (Note.mapPath (Path.relabelBelow path.length rule.label label)) := by
  rw [diffNotes_eq_below rule, List.map_map, diffNotes, diffNotes, walk_withLabel,
    Step.filterMap_note?_mapPath]
  apply List.map_congr_left
  intro n _
  rw [Function.comp_apply, Note.mapPath_mapPath, relabelBelow_comp_append]

end IdentityRule

/-- The path of a comparison is the beginning of the paths that it reports and logs, and of two
rules that differ in their word for an element the comparisons differ in that word below the path.
Nothing else depends on either. -/
theorem diff_of_context (rule : IdentityRule) (label : String) (path : Path) (a b : Node) :
    (rule.diff path a b = (rule.diff .root a b).map (Event.mapPath (path ++ ·)) ∧
      rule.diffNotes path a b = (rule.diffNotes .root a b).map (Note.mapPath (path ++ ·))) ∧
    (rule.withLabel label).equivalent a b = rule.equivalent a b ∧
      (rule.withLabel label).strategy? a b = rule.strategy? a b ∧
      (rule.withLabel label).diff path a b = (rule.diff path a b).map
        (Event.mapPath (Path.relabelBelow path.length rule.label label)) ∧
      (rule.withLabel label).diffNotes path a b = (rule.diffNotes path a b).map
        (Note.mapPath (Path.relabelBelow path.length rule.label label)) := by
  constructor
  · exact ⟨rule.diff_eq_below path a b, rule.diffNotes_eq_below path a b⟩
  · exact ⟨IdentityRule.equivalent_withLabel a b, IdentityRule.strategy?_withLabel a b,
      rule.diff_withLabel label path a b, rule.diffNotes_withLabel label path a b⟩

end ManifestDiff
