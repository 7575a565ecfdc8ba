import ManifestDiff.Proofs.Render.Colours
import ManifestDiff.Proofs.Render.Delivery
import ManifestDiff.Proofs.Render.Rows
import ManifestDiff.Proofs.Text
import ManifestDiff.Proofs.Yaml.Quoting
/-!
# Colours only decorate

Where no string of the events has an escape character in it, a report in colours is the plain report
once its colour sequences are taken out. In the lines of one event every colour is closed by a reset
before the next one, and unchanged values and the headers of objects are not painted at all.
-/
namespace ManifestDiff

namespace Node

mutual

def strings : Node → List String
  | .mapping entries => stringsOfEntries entries
  | .list items => stringsOfItems items
  | .scalar (.string s) => [s]
  | .scalar _ => []

def stringsOfEntries : List (String × Node) → List String
  | [] => []
  | (k, v) :: rest => k :: (strings v ++ stringsOfEntries rest)

def stringsOfItems : List Node → List String
  | [] => []
  | v :: rest => strings v ++ stringsOfItems rest

end

theorem mem_strings_mapping {entries : List (String × Node)} {s : String} :
    s ∈ (mapping entries).strings ↔ ∃ entry ∈ entries, s = entry.1 ∨ s ∈ entry.2.strings := by
  rw [strings]
  induction entries with
  | nil => simp [stringsOfEntries]
  | cons entry rest ih => simp [stringsOfEntries, ih, or_assoc]

theorem mem_strings_list {items : List Node} {s : String} :
    s ∈ (list items).strings ↔ ∃ item ∈ items, s ∈ item.strings := by
  rw [strings]
  induction items with
  | nil => simp [stringsOfItems]
  | cons item rest ih => simp [stringsOfItems, ih]

end Node

def Segment.strings : Segment → List String
  | .key k => [k]
  | .index _ => []
  | .identity label id => [label, id]

def ObjectKey.strings (key : ObjectKey) : List String :=
  key.kind :: key.name :: key.namespaceName.toList

def Path.strings (path : Path) : List String := path.flatMap Segment.strings

def Event.strings : Event → List String
  | .objectRemoved object | .objectAdded object | .objectHeader object => object.strings
  | .sectionHeader path | .nested path => path.strings
  | .unchanged path value | .added path value | .removed path value => path.strings ++ value.strings
  | .modified path key old new => path.strings ++ key.toList ++ old.strings ++ new.strings
  | .structuralAddition path id value _ | .structuralRemoval path id value _ =>
    path.strings ++ id :: value.strings

private theorem esc_not_mem_of_printable {cs : List Char} (h : Printable cs) : '\x1b' ∉ cs :=
  fun hmem => absurd (h _ hmem) (by decide)

private theorem esc_not_mem_ofList {cs : List Char} (h : '\x1b' ∉ cs) :
    '\x1b' ∉ (String.ofList cs).toList := by
  rwa [String.toList_ofList]

theorem Yaml.esc_not_mem_spaces (n : Nat) : '\x1b' ∉ (Yaml.spaces n).toList := by
  simp [Yaml.spaces, List.mem_replicate]

namespace Scalar

theorem esc_not_mem_yamlText (indent : Nat) (value : Scalar) :
    '\x1b' ∉ (value.yamlText indent).toList := by
  match value with
  | .null => simp [yamlText]
  | .bool b => cases b <;> simp [yamlText]
  | .int i => exact esc_not_mem_of_printable (printable_integer _)
  | .uint n => exact esc_not_mem_of_printable (printable_natural _)
  | .float .nan => simp [yamlText]
  | .float (.infinite negative) => cases negative <;> simp [yamlText]
  | .float (.finite negative index) =>
    exact esc_not_mem_of_printable (Yaml.layout.printable_finite negative index)
  | .string s => exact esc_not_mem_ofList (Yaml.Quoting.esc_not_mem_write indent s)

theorem esc_not_mem_display {value : Scalar}
    (h : ∀ s ∈ (Node.scalar value).strings, '\x1b' ∉ s.toList) : '\x1b' ∉ value.display.toList := by
  match value with
  | .null => decide
  | .bool b => cases b <;> decide
  | .int i => exact esc_not_mem_of_printable (printable_integer _)
  | .uint n => exact esc_not_mem_of_printable (printable_natural _)
  | .float .nan => decide
  | .float (.infinite negative) => cases negative <;> decide
  | .float (.finite negative index) =>
    exact esc_not_mem_of_printable (Layout.listing.printable_finite negative index)
  | .string s => exact h s List.mem_cons_self

end Scalar

namespace Node

theorem esc_not_mem_keyIntroducer (column : Nat) (key : String) :
    '\x1b' ∉ (keyIntroducer column key).toList := by
  have hkey := Yaml.Quoting.esc_not_mem_write (column + 2) key
  have hspaces := Yaml.esc_not_mem_spaces column
  rw [keyIntroducer]
  split <;> simp [hkey, hspaces]

mutual

private theorem esc_not_mem_textFrom : ∀ (node : Node) (column : Nat),
    '\x1b' ∉ (node.textFrom column).toList
  | .mapping [], _ => by simp [textFrom]
  | .mapping (entry :: rest), column => by
    simpa [textFrom] using esc_not_mem_textEntries (entry :: rest) column
  | .list [], _ => by simp [textFrom]
  | .list (item :: rest), column => by
    simpa [textFrom] using esc_not_mem_textItems (item :: rest) column
  | .scalar value, column => by
    simpa [textFrom] using value.esc_not_mem_yamlText column

private theorem esc_not_mem_textAfterKey : ∀ (node : Node) (column : Nat),
    '\x1b' ∉ (node.textAfterKey column).toList
  | .mapping [], _ => by simp [textAfterKey]
  | .mapping (entry :: rest), column => by
    simpa [textAfterKey, Yaml.esc_not_mem_spaces] using
      esc_not_mem_textEntries (entry :: rest) (column + 2)
  | .list [], _ => by simp [textAfterKey]
  | .list (item :: rest), column => by
    simpa [textAfterKey, Yaml.esc_not_mem_spaces] using esc_not_mem_textItems (item :: rest) column
  | .scalar value, column => by
    simpa [textAfterKey] using value.esc_not_mem_yamlText (column + 2)

private theorem esc_not_mem_textEntries : ∀ (entries : List (String × Node)) (column : Nat),
    '\x1b' ∉ (textEntries column entries).toList
  | [], _ => by simp [textEntries]
  | (k, v) :: rest, column => by
    have hkey := esc_not_mem_keyIntroducer column k
    have hvalue := esc_not_mem_textAfterKey v column
    have hnested := esc_not_mem_textFrom v (column + 2)
    have hrest := esc_not_mem_textEntries rest column
    rw [textEntries]
    split <;> split <;> simp [hkey, hvalue, hnested, hrest, Yaml.esc_not_mem_spaces]

private theorem esc_not_mem_textItems : ∀ (items : List Node) (column : Nat),
    '\x1b' ∉ (textItems column items).toList
  | [], _ => by simp [textItems]
  | v :: rest, column => by
    have hvalue := esc_not_mem_textFrom v (column + 2)
    have hrest := esc_not_mem_textItems rest column
    rw [textItems]
    split <;> simp [hvalue, hrest, Yaml.esc_not_mem_spaces]

end

theorem esc_not_mem_blockText (node : Node) : '\x1b' ∉ node.blockText.toList := by
  cases node with
  | scalar value => simpa [blockText] using value.esc_not_mem_yamlText 2
  | mapping entries => exact esc_not_mem_textFrom _ 0
  | list items => exact esc_not_mem_textFrom _ 0

theorem esc_not_mem_summary (node : Node) : '\x1b' ∉ node.summary.toList := by
  have htext := node.esc_not_mem_blockText
  rw [summary]
  split
  · rw [String.toList_append, String.toList_ofList, List.mem_append, not_or]
    refine ⟨?_, by decide⟩
    intro hmem
    exact htext (trim_subset _ ((List.takeWhile_subset _) (trimEnd_subset _ hmem)))
  · rw [String.toList_ofList]
    exact fun hmem => htext (trim_subset _ hmem)

private theorem esc_not_mem_labelledRows {value : Node} {depth : Nat} {label : String}
    (hlabel : '\x1b' ∉ label.toList) (hvalue : ∀ s ∈ value.strings, '\x1b' ∉ s.toList)
    (h : ∀ row ∈ value.rows (depth + 1), '\x1b' ∉ row.text.toList) :
    ∀ row ∈ value.labelledRows depth label, '\x1b' ∉ row.text.toList := by
  cases value with
  | scalar value =>
    have hdisplay := Scalar.esc_not_mem_display hvalue
    exact List.forall_mem_singleton.mpr (by simp [hlabel, hdisplay])
  | mapping entries => exact List.forall_mem_cons.mpr ⟨by simp [hlabel], h⟩
  | list items => exact List.forall_mem_cons.mpr ⟨by simp [hlabel], h⟩

theorem esc_not_mem_rows {node : Node} (h : ∀ s ∈ node.strings, '\x1b' ∉ s.toList) (depth : Nat) :
    ∀ row ∈ node.rows depth, '\x1b' ∉ row.text.toList := by
  induction node generalizing depth with
  | mapping entries ih =>
    rw [rows_mapping, List.forall_mem_flatMap]
    intro entry hentry
    have hkey : '\x1b' ∉ entry.1.toList :=
      h entry.1 ((mem_strings_mapping).mpr ⟨entry, hentry, .inl rfl⟩)
    have hvalue : ∀ s ∈ entry.2.strings, '\x1b' ∉ s.toList := fun s hs =>
      h s ((mem_strings_mapping).mpr ⟨entry, hentry, .inr hs⟩)
    exact esc_not_mem_labelledRows hkey hvalue (ih entry hentry hvalue (depth + 1))
  | list items ih =>
    rw [rows_list, List.forall_mem_flatMap]
    intro item hitem
    have hvalue : ∀ s ∈ item.strings, '\x1b' ∉ s.toList := fun s hs =>
      h s ((mem_strings_list).mpr ⟨item, hitem, hs⟩)
    have hdash : '\x1b' ∉ "-".toList := by decide
    exact List.forall_mem_cons.mpr ⟨hdash, ih item hitem hvalue (depth + 1)⟩
  | scalar value => exact List.forall_mem_singleton.mpr (Scalar.esc_not_mem_display h)

end Node

namespace TextReport

open Palette

theorem esc_not_mem_label {path : Path} (h : ∀ s ∈ path.strings, '\x1b' ∉ s.toList) :
    '\x1b' ∉ (label path).toList := by
  rw [label]
  cases hlast : path.getLast? with
  | none => decide
  | some segment =>
    have hsegment : ∀ s ∈ segment.strings, '\x1b' ∉ s.toList := fun s hs =>
      h s (List.mem_flatMap.mpr ⟨segment, List.mem_of_getLast? hlast, hs⟩)
    cases segment with
    | key k => exact hsegment k List.mem_cons_self
    | index i => simp [Segment.display, esc_not_mem_of_printable (printable_toDigits i)]
    | identity word id =>
      simp only [Segment.strings, List.forall_mem_cons] at hsegment
      simp [hsegment.1, hsegment.2.1]

theorem esc_not_mem_nestedText {path : Path} (h : ∀ s ∈ path.strings, '\x1b' ∉ s.toList) :
    '\x1b' ∉ (nestedText path).toList := by
  have hlabel := esc_not_mem_label h
  rw [nestedText]
  split
  next i _ => simp [Segment.display, esc_not_mem_of_printable (printable_toDigits i)]
  next => simp [hlabel]

theorem esc_not_mem_title {object : ObjectKey} (h : ∀ s ∈ object.strings, '\x1b' ∉ s.toList) :
    '\x1b' ∉ object.title.toList := by
  obtain ⟨kind, ns?, name⟩ := object
  cases ns? <;> simp_all [ObjectKey.strings, ObjectKey.title]

/-- The rows are as deep, and the text of each is decorated. -/
def RowsDecorate (coloured plain : List Row) : Prop :=
  List.Forall₂ (fun row row' => row.depth = row'.depth ∧
    Decorates row.text.toList row'.text.toList) coloured plain

private theorem rowsDecorate_self {rows : List Row}
    (h : ∀ row ∈ rows, '\x1b' ∉ row.text.toList) : RowsDecorate rows rows := by
  rw [RowsDecorate, List.forall₂_same]
  intro row hrow
  exact ⟨rfl, .of_not_mem (h row hrow)⟩

private theorem rowsDecorate_painted (depth : Nat) (tone : Tone) {text : String}
    (h : '\x1b' ∉ text.toList) :
    RowsDecorate [⟨depth, ansi tone text⟩] [⟨depth, Palette.plain tone text⟩] :=
  .cons ⟨rfl, decorates_ansi tone h⟩ .nil

private theorem rowsDecorate_structural (depth : Nat) (tone : Tone) (tainted : Bool)
    {mark text : String} (hmark : '\x1b' ∉ mark.toList) (h : '\x1b' ∉ text.toList) :
    RowsDecorate
      [⟨depth, ansi tone mark ++ (if tainted then ansi .taint "! " else "") ++ ansi tone text⟩]
      [⟨depth, Palette.plain tone mark ++ (if tainted then Palette.plain .taint "! " else "") ++
        Palette.plain tone text⟩] := by
  have htaint : Decorates (if tainted then ansi .taint "! " else "").toList
      (if tainted then Palette.plain .taint "! " else "").toList := by
    cases tainted with
    | false => exact .of_not_mem (by decide)
    | true => exact decorates_ansi .taint (by decide)
  exact .cons ⟨rfl, ((decorates_ansi tone hmark).toList_append htaint).toList_append
    (decorates_ansi tone h)⟩ .nil

theorem rows_decorate {event : Event} (h : ∀ s ∈ event.strings, '\x1b' ∉ s.toList) :
    RowsDecorate (rows .ansi event) (rows .plain event) := by
  cases event with
  | objectRemoved object =>
    exact rowsDecorate_painted 0 .removal (by simp [esc_not_mem_title h])
  | objectAdded object =>
    exact rowsDecorate_painted 0 .addition (by simp [esc_not_mem_title h])
  | objectHeader object =>
    exact rowsDecorate_self (by simp [rows])
  | sectionHeader path =>
    exact rowsDecorate_painted _ .modification (by simp [esc_not_mem_label h])
  | nested path =>
    exact rowsDecorate_painted _ .modification (esc_not_mem_nestedText h)
  | unchanged path value =>
    obtain ⟨hpath, hvalue⟩ := List.forall_mem_append.mp h
    exact rowsDecorate_self (Node.esc_not_mem_labelledRows (esc_not_mem_label hpath) hvalue
      (Node.esc_not_mem_rows hvalue _))
  | added path value =>
    obtain ⟨hpath, -⟩ := List.forall_mem_append.mp h
    exact rowsDecorate_painted _ .addition
      (by simp [esc_not_mem_label hpath, value.esc_not_mem_summary])
  | removed path value =>
    obtain ⟨hpath, -⟩ := List.forall_mem_append.mp h
    exact rowsDecorate_painted _ .removal
      (by simp [esc_not_mem_label hpath, value.esc_not_mem_summary])
  | modified path key old new =>
    have hold := old.esc_not_mem_summary
    have hnew := new.esc_not_mem_summary
    cases key with
    | none =>
      exact .cons ⟨rfl, decorates_ansi .modification (by simp [hold])⟩
        (rowsDecorate_painted _ .modification (by simp [hnew]))
    | some key =>
      have hkey : '\x1b' ∉ key.toList := h key (by simp [Event.strings])
      exact .cons ⟨rfl, decorates_ansi .modification (by simp [hkey, hold])⟩
        (rowsDecorate_painted _ .modification (by simp [hkey, hnew]))
  | structuralAddition path id value tainted =>
    obtain ⟨hpath, -⟩ := List.forall_mem_append.mp h
    exact rowsDecorate_structural _ .addition tainted (by decide)
      (by simp [esc_not_mem_label hpath, value.esc_not_mem_summary])
  | structuralRemoval path id value tainted =>
    obtain ⟨hpath, -⟩ := List.forall_mem_append.mp h
    exact rowsDecorate_structural _ .removal tainted (by decide)
      (by simp [esc_not_mem_label hpath, value.esc_not_mem_summary])

private theorem esc_not_mem_written {row : Row} (h : '\x1b' ∉ row.text.toList) :
    '\x1b' ∉ row.written.toList := by
  simp [Row.written, indented, indentation, List.mem_replicate, h]

private theorem esc_not_mem_join {rows : List Row} (h : ∀ row ∈ rows, '\x1b' ∉ row.text.toList) :
    '\x1b' ∉ (String.join (rows.map Row.written)).toList := by
  have hwritten : ∀ row ∈ rows, '\x1b' ∉ row.written.toList := fun row hrow =>
    esc_not_mem_written (h row hrow)
  simpa using hwritten

private theorem decorates_written {row row' : Row} (hdepth : row.depth = row'.depth)
    (h : Decorates row.text.toList row'.text.toList) :
    Decorates row.written.toList row'.written.toList := by
  have hindentation : '\x1b' ∉ (indentation row'.depth).toList := by
    simp [indentation, List.mem_replicate]
  rw [Row.written, Row.written, indented, indented, hdepth]
  exact ((Decorates.of_not_mem hindentation).toList_append h).toList_append
    (.of_not_mem (by decide))

private theorem decorates_join {rows rows' : List Row} (h : RowsDecorate rows rows') :
    Decorates (String.join (rows.map Row.written)).toList
      (String.join (rows'.map Row.written)).toList := by
  induction h with
  | nil => exact .of_not_mem (by simp)
  | cons hrow _ ih =>
    rw [List.map_cons, List.map_cons, String.join_cons, String.join_cons]
    exact (decorates_written hrow.1 hrow.2).toList_append ih

theorem lines_decorate {event : Event} (h : ∀ s ∈ event.strings, '\x1b' ∉ s.toList) :
    Decorates (lines .ansi event).toList (lines .plain event).toList := by
  rw [lines_eq_join, lines_eq_join]
  exact decorates_join (rows_decorate h)

theorem join_lines_decorate {events : List Event}
    (h : ∀ e ∈ events, ∀ s ∈ e.strings, '\x1b' ∉ s.toList) :
    Decorates (String.join (events.map (lines .ansi))).toList
      (String.join (events.map (lines .plain))).toList := by
  induction events with
  | nil =>
    simp only [List.map_nil, String.join_nil]
    exact .of_not_mem (by decide)
  | cons e events ih =>
    obtain ⟨he, hevents⟩ := List.forall_mem_cons.mp h
    rw [List.map_cons, List.map_cons, String.join_cons, String.join_cons]
    exact (lines_decorate he).toList_append (ih hevents)

theorem sequences_join_lines {events : List Event}
    (h : ∀ e ∈ events, ∀ s ∈ e.strings, '\x1b' ∉ s.toList) :
    sequences (String.join (events.map (lines .ansi))) =
      events.flatMap fun e => sequences (lines .ansi e) := by
  induction events with
  | nil =>
    have hempty : "".toList = [] := rfl
    rw [List.map_nil, String.join_nil, sequences, hempty, marks_nil]
    rfl
  | cons e events ih =>
    obtain ⟨he, hevents⟩ := List.forall_mem_cons.mp h
    rw [List.map_cons, String.join_cons, (lines_decorate he).sequences_append, ih hevents,
      List.flatMap_cons]

theorem esc_not_mem_objectHeader (palette : Palette) (object : ObjectKey) :
    '\x1b' ∉ (lines palette (.objectHeader object)).toList := by
  rw [lines_eq_join]
  exact esc_not_mem_join (by simp [rows])

theorem esc_not_mem_unchanged (palette : Palette) {path : Path} {value : Node}
    (h : ∀ s ∈ (Event.unchanged path value).strings, '\x1b' ∉ s.toList) :
    '\x1b' ∉ (lines palette (.unchanged path value)).toList := by
  obtain ⟨hpath, hvalue⟩ := List.forall_mem_append.mp h
  rw [lines_eq_join]
  exact esc_not_mem_join (Node.esc_not_mem_labelledRows (esc_not_mem_label hpath) hvalue
    (Node.esc_not_mem_rows hvalue _))

end TextReport

/-- A report in colours without its colour sequences is the plain report. The colour sequences are
those of the single events; in each of them every colour is closed before the next one, and the
events that report no difference have none. -/
structure Decorated (events : List Event) (coloured plain : String) : Prop where
  uncoloured : Palette.uncoloured coloured = plain
  sequences : Palette.sequences coloured =
    events.flatMap fun e => Palette.sequences (TextReport.lines .ansi e)
  closed : ∀ e ∈ events, Palette.Closed (Palette.sequences (TextReport.lines .ansi e))
  objectHeader : ∀ object, .objectHeader object ∈ events →
    '\x1b' ∉ (TextReport.lines .ansi (.objectHeader object)).toList
  unchanged : ∀ path value, .unchanged path value ∈ events →
    '\x1b' ∉ (TextReport.lines .ansi (.unchanged path value)).toList

/-- Colours are decoration only, as far as no string of the events has an escape character in it. -/
theorem colours_decorate (steps : List Step)
    (h : ∀ e ∈ steps.filterMap Step.event?, ∀ s ∈ e.strings, '\x1b' ∉ s.toList) :
    ∃ coloured plain : String,
      (Renderer.text .ansi).bytes steps = coloured.toUTF8 ∧
      (Renderer.text .plain).bytes steps = plain.toUTF8 ∧
      Decorated (steps.filterMap Step.event?) coloured plain := by
  have hbytes (palette : Palette) : (Renderer.text palette).bytes steps =
      (String.join ((steps.filterMap Step.event?).map (TextReport.lines palette))).toUTF8 := by
    rw [Renderer.bytes_eq_join, funext (Renderer.text_output palette)]
  refine ⟨_, _, hbytes .ansi, hbytes .plain, ?_⟩
  exact
    { uncoloured := (TextReport.join_lines_decorate h).uncoloured_eq
      sequences := TextReport.sequences_join_lines h
      closed := fun e he => (TextReport.lines_decorate (h e he)).closed
      objectHeader := fun object _ => TextReport.esc_not_mem_objectHeader .ansi object
      unchanged := fun path value he => TextReport.esc_not_mem_unchanged .ansi (h _ he) }

private def bracketed : List Step :=
  [.event (.unchanged [.key "note"] (.string "[0m")), .note (.unmatched [.key "spec"]),
    .event (.structuralAddition [.key "spec", .identity "container" "[31m"] "[31m"
      (.mapping [("image", .string "web"), ("name", .string "[31m")]) true)]

/-- What looks like the rest of a colour sequence in a name or a value is text, and stays. -/
theorem colours_decorate_bracketed :
    (∀ e ∈ bracketed.filterMap Step.event?, ∀ s ∈ e.strings, '\x1b' ∉ s.toList) ∧
      (bracketed.filterMap Step.event?).map (TextReport.lines .ansi) = ["note: [0m\n",
        "  \x1b[92m+ \x1b[0m\x1b[91m! \x1b[0m\x1b[92mcontainer '[31m': image: web ...\x1b[0m\n"] ∧
      ∃ coloured plain : String,
        (Renderer.text .ansi).bytes bracketed = coloured.toUTF8 ∧
        (Renderer.text .plain).bytes bracketed = plain.toUTF8 ∧
        Decorated (bracketed.filterMap Step.event?) coloured plain := by
  have hstrings : ∀ e ∈ bracketed.filterMap Step.event?, ∀ s ∈ e.strings, '\x1b' ∉ s.toList := by
    simp only [bracketed, List.filterMap_cons, Step.event?, List.filterMap_nil,
      List.forall_mem_cons]
    exact ⟨by decide, by decide, List.forall_mem_nil _⟩
  exact ⟨hstrings, by decide, colours_decorate bracketed hstrings⟩

end ManifestDiff
