import ManifestDiff.Proofs.Diff.Enclosure
import ManifestDiff.Proofs.Diff.Pieces
import ManifestDiff.Proofs.Render.Delivery
import ManifestDiff.Proofs.Render.Rows
import ManifestDiff.Proofs.Text
/-!
# The outline of a comparison

The text of a comparison has a line for each event, and two for each replacement. How deep a line is
indented tells where its event belongs: right below the header that it comes under, which is the
last one before it whose place it is inside of.
-/
namespace ManifestDiff

def Segment.OneLine : Segment → Prop
  | .key k => '\n' ∉ k.toList
  | .index _ => True
  | .identity label id => '\n' ∉ label.toList ∧ '\n' ∉ id.toList

namespace Event

/-- The event replaces the value at a place, or it is about a child by a segment with the
property. -/
inductive Labelled (P : Segment → Prop) : Event → Prop
  | replacement (place : Path) (old new : Node) : Labelled P (.modified place none old new)
  | header (place : Path) {segment : Segment} (h : P segment) :
    Labelled P (.nested (place.child segment))
  | addition (place : Path) (tainted : Bool) {segment : Segment} (h : P segment) (value : Node) :
    Labelled P (.addition place tainted segment value)
  | removal (place : Path) (tainted : Bool) {segment : Segment} (h : P segment) (value : Node) :
    Labelled P (.removal place tainted segment value)

end Event

namespace IdentityRule

variable {rule : IdentityRule} {P : Segment → Prop} {a b : Node}

theorem labelled_of_mem_diff (hindex : ∀ i, P (.index i)) (path : Path) (ha : rule.Named P a)
    (hb : rule.Named P b) : ∀ e ∈ rule.diff path a b, e.Labelled P := by
  refine diff_induct (P := fun _ a b events => rule.Named P a → rule.Named P b →
    ∀ e ∈ events, e.Labelled P) ?silent ?replaced ?pieces path a b ha hb
  case silent =>
    intro path a b _ _ _
    exact List.forall_mem_nil _
  case replaced =>
    intro path a b _ _ _ _
    exact List.forall_mem_singleton.mpr (.replacement path a b)
  case pieces =>
    intro path a b segments _ hs ih ha hb
    rw [List.forall_mem_flatMap]
    intro segment hm
    have hsegment := Named.of_segments? hindex ha hb hs segment hm
    apply pieceEvents_cases (P := fun events => ∀ e ∈ events, e.Labelled P)
    case silent => exact List.forall_mem_nil _
    case addition =>
      intro w _ _
      exact List.forall_mem_singleton.mpr (.addition path _ hsegment w)
    case removal =>
      intro v _ _
      exact List.forall_mem_singleton.mpr (.removal path _ hsegment v)
    case nested =>
      intro v w hv hw _
      have hbelow := ih segment v w hv hw (ha.of_child? hv) (hb.of_child? hw)
      exact List.forall_mem_cons.mpr ⟨.header path hsegment, hbelow⟩

end IdentityRule

theorem Node.lineFeed_not_mem_summary (node : Node) : '\n' ∉ node.summary.toList := by
  have hfirst (cs : List Char) : '\n' ∉ cs.takeWhile (· != '\n') := by
    intro h
    exact absurd (List.mem_takeWhile_imp h) (by decide)
  rw [summary]
  split
  next =>
    have hmarker : '\n' ∉ " ...".toList := by decide
    rw [String.toList_append, String.toList_ofList, List.mem_append, not_or]
    exact ⟨fun h => hfirst _ (trimEnd_subset _ h), hmarker⟩
  next hlength =>
    have hwhole := (List.takeWhile_prefix _).eq_of_length_le (Nat.not_lt.mp hlength)
    rw [String.toList_ofList, ← hwhole]
    exact hfirst _

namespace TextReport

theorem labelDepth_child (path : Path) (segment : Segment) :
    labelDepth (path.child segment) = path.depth := by
  rw [labelDepth, Path.depth_child, Nat.add_sub_cancel]

theorem lineFeed_not_mem_label {segment : Segment} (h : segment.OneLine) (path : Path) :
    '\n' ∉ (label (path.child segment)).toList := by
  cases segment with
  | key k =>
    have hkey : '\n' ∉ k.toList := h
    simpa [label, Path.child] using hkey
  | index i =>
    have hdigits : '\n' ∉ Nat.toDigits 10 i := (printable_toDigits i).lineFeed_not_mem
    simp [label, Path.child, Segment.display, hdigits]
  | identity word id =>
    obtain ⟨hword, hid⟩ := h
    simp [label, Path.child, hword, hid]

/-- A row of one line that stands this deep and begins with a mark. -/
structure Marked (depth : Nat) (row : Row) : Prop where
  depth : row.depth = depth
  mark : ∃ c rest, c ∈ ['+', '-', '~', '['] ∧ row.text.toList = c :: rest
  oneLine : '\n' ∉ row.text.toList

private theorem marked_replacement {mark : String} (hmark : mark = "~~ " ∨ mark = "~> ")
    (depth : Nat) (value : Node) :
    Marked depth ⟨depth, mark ++ "" ++ value.summary⟩ := by
  have hsummary := value.lineFeed_not_mem_summary
  rcases hmark with rfl | rfl <;> exact ⟨rfl, by simp, by simp [hsummary]⟩

private theorem nestedText_child (path : Path) (segment : Segment) :
    ∃ start, (start = "" ∨ start = "~ ") ∧
      nestedText (path.child segment) = start ++ label (path.child segment) ++ ":" := by
  cases segment with
  | index i => exact ⟨"", .inl rfl, by simp [nestedText, label, Path.child]⟩
  | _ => exact ⟨"~ ", .inr rfl, by simp [nestedText, Path.child]⟩

private theorem marked_header {segment : Segment} (h : segment.OneLine) (path : Path) :
    Marked path.depth ⟨path.depth, nestedText (path.child segment)⟩ := by
  refine ⟨rfl, ?mark, ?oneLine⟩
  case mark => cases segment <;> simp [nestedText, Path.child, Segment.display]
  case oneLine =>
    have hlabel := lineFeed_not_mem_label h path
    obtain ⟨start, hstart, htext⟩ := nestedText_child path segment
    rcases hstart with rfl | rfl <;> simp [htext, hlabel]

private theorem marked_child {mark taint : String} (hmark : mark = "+ " ∨ mark = "- ")
    (htaint : '\n' ∉ taint.toList) {segment : Segment} (h : segment.OneLine) (path : Path)
    (value : Node) :
    Marked path.depth
      ⟨path.depth, mark ++ taint ++ (label (path.child segment) ++ ": " ++ value.summary)⟩ := by
  have hlabel := lineFeed_not_mem_label h path
  have hsummary := value.lineFeed_not_mem_summary
  rcases hmark with rfl | rfl <;> exact ⟨rfl, by simp, by simp [htaint, hlabel, hsummary]⟩

private theorem rows_of_child (place : Path) (tainted : Bool) (segment : Segment) (value : Node) :
    ∃ taint : String, '\n' ∉ taint.toList ∧
      rows .plain (.addition place tainted segment value) = [⟨place.depth,
        "+ " ++ taint ++ (label (place.child segment) ++ ": " ++ value.summary)⟩] ∧
      rows .plain (.removal place tainted segment value) = [⟨place.depth,
        "- " ++ taint ++ (label (place.child segment) ++ ": " ++ value.summary)⟩] := by
  cases segment with
  | identity word id =>
    refine ⟨if tainted then "! " else "", by split <;> decide, ?_⟩
    rw [← labelDepth_child place (.identity word id)]
    exact ⟨rfl, rfl⟩
  | _ =>
    refine ⟨"", by decide, ?_⟩
    simp [Event.addition, Event.removal, rows, labelDepth_child, Palette.plain,
      String.append_assoc]

theorem rows_of_labelled {e : Event} (h : e.Labelled Segment.OneLine) :
    (rows .plain e).length = (if e.isReplacement then 2 else 1) ∧
      ∀ row ∈ rows .plain e, Marked e.level row := by
  cases h with
  | replacement place old new =>
    refine ⟨rfl, List.forall_mem_cons.mpr ⟨?_, List.forall_mem_singleton.mpr ?_⟩⟩
    · exact marked_replacement (.inl rfl) _ old
    · exact marked_replacement (.inr rfl) _ new
  | @header place segment h =>
    have hrow := marked_header h place
    rw [← labelDepth_child place segment] at hrow
    exact ⟨rfl, List.forall_mem_singleton.mpr hrow⟩
  | @addition place tainted segment h value =>
    obtain ⟨taint, htaint, hrows, _⟩ := rows_of_child place tainted segment value
    rw [hrows, Event.level_addition, Event.isReplacement_addition]
    exact ⟨rfl, List.forall_mem_singleton.mpr (marked_child (.inl rfl) htaint h place value)⟩
  | @removal place tainted segment h value =>
    obtain ⟨taint, htaint, _, hrows⟩ := rows_of_child place tainted segment value
    rw [hrows, Event.level_removal, Event.isReplacement_removal]
    exact ⟨rfl, List.forall_mem_singleton.mpr (marked_child (.inr rfl) htaint h place value)⟩

end TextReport

/-- How the lines of a text tell of events, one after the other. Each line begins with a mark behind
its indentation, which is by the depth of the place if the event replaces the value there, and by
one level less if not. -/
structure Outline (path : Path) (events : List Event) (text : String) : Prop where
  split : text.toList.splitOn '\n' =
    (events.flatMap fun e => linesOf (TextReport.lines .plain e)) ++ [[]]
  count : ∀ e ∈ events,
    (linesOf (TextReport.lines .plain e)).length = if e.isReplacement then 2 else 1
  mark : ∀ e ∈ events, ∀ line ∈ linesOf (TextReport.lines .plain e), ∃ c rest,
    c ∈ ['+', '-', '~', '['] ∧ line = List.replicate (2 * e.level) ' ' ++ c :: rest
  depth : ∀ e ∈ events, ∃ place, e.path? = some place ∧
    place.depth = if e.isReplacement then e.level else e.level + 1
  /-- Below a header the lines are indented one level deeper than the header. -/
  enclosed : ∀ before e after place, events = before ++ e :: after →
    (e.headersAbove before).getLast? = some place →
    e.level = (Event.nested place).level + 1
  outermost : ∀ before e after, events = before ++ e :: after → e.headersAbove before = [] →
    e.level = path.depth

namespace TextReport

variable {e : Event}

private theorem depth_of_labelled {P : Segment → Prop} (h : e.Labelled P) : ∃ place,
    e.path? = some place ∧
      place.depth = if e.isReplacement then e.level else e.level + 1 := by
  cases h with
  | replacement place old new => exact ⟨place, rfl, rfl⟩
  | @header place segment _ =>
    refine ⟨place.child segment, rfl, ?_⟩
    rw [Event.level_nested]
    exact place.depth_child segment
  | @addition place tainted segment _ value =>
    refine ⟨place.child segment, Event.path?_addition place tainted segment value, ?_⟩
    rw [Event.level_addition, Event.isReplacement_addition]
    exact place.depth_child segment
  | @removal place tainted segment _ value =>
    refine ⟨place.child segment, Event.path?_removal place tainted segment value, ?_⟩
    rw [Event.level_removal, Event.isReplacement_removal]
    exact place.depth_child segment

private theorem linesOf_of_labelled (h : e.Labelled Segment.OneLine) :
    linesOf (lines .plain e) = (rows .plain e).map fun row =>
      List.replicate (2 * e.level) ' ' ++ row.text.toList := by
  rw [linesOf_lines, List.map_eq_flatMap]
  apply List.flatMap_congr
  intro row hrow
  have hmarked := (rows_of_labelled h).2 row hrow
  rw [Row.lines_of_not_mem hmarked.oneLine, hmarked.depth]

theorem outline_of_labelled {path : Path} {events : List Event}
    (hlabelled : ∀ e ∈ events, e.Labelled Segment.OneLine)
    (henclosed : IdentityRule.Enclosed path events) :
    Outline path events (String.join (events.map (lines .plain))) where
  split := splitOn_join_lines .plain events
  count e he := by
    rw [linesOf_of_labelled (hlabelled e he), List.length_map]
    exact (rows_of_labelled (hlabelled e he)).1
  mark e he := by
    rw [linesOf_of_labelled (hlabelled e he), List.forall_mem_map]
    intro row hrow
    obtain ⟨c, rest, hc, htext⟩ := ((rows_of_labelled (hlabelled e he)).2 row hrow).mark
    exact ⟨c, rest, hc, by rw [htext]⟩
  depth e he := depth_of_labelled (hlabelled e he)
  enclosed before e after place hevents hplace := by
    have hheader : .nested place ∈ events := by
      have hbefore := (Event.mem_headersAbove).mp (List.mem_of_getLast? hplace)
      rw [hevents]
      exact List.mem_append_left _ hbefore.1
    obtain ⟨_, hpath, hdepth⟩ := depth_of_labelled (hlabelled _ hheader)
    cases hpath
    rw [henclosed before e after hevents, List.getLastD_eq_getLast?, hplace]
    exact hdepth
  outermost before e after hevents habove := by
    rw [henclosed before e after hevents, habove]
    rfl

end TextReport

/-- When no key, no identity and no word for an element has a line feed in it, the lines of a
comparison are those of its events, in order and indented by their depth. -/
theorem diff_outlined (rule : IdentityRule) (path : Path) {a b : Node}
    (ha : rule.Named Segment.OneLine a) (hb : rule.Named Segment.OneLine b) :
    ∃ text : String, (Renderer.text .plain).bytes (rule.walk path a b) = text.toUTF8 ∧
      Outline path (rule.diff path a b) text := by
  refine ⟨String.join ((rule.diff path a b).map (TextReport.lines .plain)), ?_, ?_⟩
  · rw [Renderer.bytes_eq_join, funext (Renderer.text_output .plain)]
    rfl
  · have hlabelled : ∀ e ∈ rule.diff path a b, e.Labelled Segment.OneLine :=
      IdentityRule.labelled_of_mem_diff (fun _ => trivial) path ha hb
    exact TextReport.outline_of_labelled hlabelled (IdentityRule.enclosed_diff path a b)

private def pod (image : String) : Node :=
  .mapping [("containers", .list [.mapping [("image", .string image), ("name", .string "web")]])]

private theorem named_pod (image : String) :
    IdentityRule.Named { label := "container" } Segment.OneLine (pod image) := by
  have hkey (k : String) (h : '\n' ∉ k.toList) : (Segment.key k).OneLine := h
  refine .mapping ?_ (List.forall_mem_singleton.mpr (.list ?_ ?_))
  · exact List.forall_mem_singleton.mpr (hkey "containers" (by decide))
  · intro _ id hid
    have hweb : id ∈ ["web"] := hid
    rw [List.mem_singleton.mp hweb]
    exact ⟨by decide, by decide⟩
  · refine List.forall_mem_singleton.mpr (.mapping ?_ ?_)
    · simp only [List.forall_mem_cons]
      exact ⟨hkey _ (by decide), hkey _ (by decide), nofun⟩
    · simp only [List.forall_mem_cons]
      exact ⟨.scalar _, .scalar _, nofun⟩

/-- The values themselves may have line feeds in them, and so may the beginning of the paths. -/
theorem diff_outlined_pods :
    IdentityRule.Named { label := "container" } Segment.OneLine (pod "v1\nv2") ∧
      IdentityRule.Named { label := "container" } Segment.OneLine (pod "v3") ∧
      ∃ text : String,
        (Renderer.text .plain).bytes (IdentityRule.walk { label := "container" } [.key "\n"]
          (pod "v1\nv2") (pod "v3")) = text.toUTF8 ∧
        text.toList.splitOn '\n' =
          ["  ~ containers:".toList, "    ~ container 'web':".toList, "      ~ image:".toList,
            "        ~~ |- ...".toList, "        ~> v3".toList, []] := by
  refine ⟨named_pod _, named_pod _, ?_⟩
  obtain ⟨text, hbytes, houtline⟩ :=
    diff_outlined { label := "container" } [.key "\n"] (named_pod "v1\nv2") (named_pod "v3")
  exact ⟨text, hbytes, houtline.split.trans (by decide)⟩

end ManifestDiff
