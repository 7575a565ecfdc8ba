import ManifestDiff.Proofs.Json.Printable
import ManifestDiff.Proofs.Node.WellFormed
import ManifestDiff.Render.Text
/-!
# Rows

A text report is written in rows: a text behind its indentation, and a line end after it. Listings
are made of rows, and so are events. The lines of a report are those of its rows, in order; a row is
one line unless its text has a line feed in it, and behind a line feed there is no indentation.
-/
namespace ManifestDiff

/-- The lines of a text in which each line has its end. -/
def linesOf (text : String) : List (List Char) := (text.toList.splitOn '\n').dropLast

structure Row where
  depth : Nat
  text : String

namespace Row

def written (row : Row) : String := indented row.depth row.text

def lines (row : Row) : List (List Char) :=
  (List.replicate (2 * row.depth) ' ' ++ row.text.toList).splitOn '\n'

theorem splitOn_join (rows : List Row) :
    (String.join (rows.map written)).toList.splitOn '\n' = rows.flatMap lines ++ [[]] := by
  induction rows with
  | nil => rfl
  | cons row rows ih =>
    have hrow : (String.join ((row :: rows).map written)).toList =
        (List.replicate (2 * row.depth) ' ' ++ row.text.toList) ++
          '\n' :: (String.join (rows.map written)).toList := by
      simp [written, indented, indentation]
    rw [hrow, List.splitOn_append_cons_self, ih, List.flatMap_cons, List.append_assoc]
    rfl

theorem linesOf_join (rows : List Row) :
    linesOf (String.join (rows.map written)) = rows.flatMap lines := by
  rw [linesOf, splitOn_join, List.dropLast_concat]

private theorem length_splitOn (cs : List Char) :
    (cs.splitOn '\n').length = cs.count '\n' + 1 := by
  induction cs with
  | nil => rfl
  | cons c cs ih =>
    rw [List.splitOn_cons_eq_if_modifyHead, List.count_cons]
    split
    · rw [List.length_cons, ih]
    · rw [List.length_modifyHead, ih]

theorem length_lines (row : Row) : row.lines.length = row.text.toList.count '\n' + 1 := by
  have hblanks : (List.replicate (2 * row.depth) ' ').count '\n' = 0 := by
    simp [List.count_replicate]
  rw [lines, length_splitOn, List.count_append, hblanks, Nat.zero_add]

theorem length_flatMap_lines (rows : List Row) :
    (rows.flatMap lines).length =
      rows.length + (rows.flatMap fun row => row.text.toList).count '\n' := by
  induction rows with
  | nil => rfl
  | cons row rows ih =>
    rw [List.flatMap_cons, List.length_append, length_lines, ih, List.length_cons,
      List.flatMap_cons, List.count_append]
    omega

theorem count_flatMap_text_eq_zero_iff {rows : List Row} :
    (rows.flatMap fun row => row.text.toList).count '\n' = 0 ↔
      ∀ row ∈ rows, '\n' ∉ row.text.toList := by
  simp only [List.count_eq_zero, List.mem_flatMap, not_exists, not_and]

theorem lines_of_not_mem {row : Row} (h : '\n' ∉ row.text.toList) :
    row.lines = [List.replicate (2 * row.depth) ' ' ++ row.text.toList] := by
  rw [lines]
  apply List.splitOn_eq_singleton
  simp [h]

end Row

namespace Node

mutual

def rows (depth : Nat) : Node → List Row
  | .mapping entries => rowsOfEntries depth entries
  | .list items => rowsOfItems depth items
  | .scalar value => [⟨depth, value.display⟩]

def rowsOfEntries (depth : Nat) : List (String × Node) → List Row
  | [] => []
  | (k, .scalar value) :: rest => ⟨depth, k ++ ": " ++ value.display⟩ :: rowsOfEntries depth rest
  | (k, v) :: rest => ⟨depth, k ++ ":"⟩ :: (rows (depth + 1) v ++ rowsOfEntries depth rest)

def rowsOfItems (depth : Nat) : List Node → List Row
  | [] => []
  | v :: rest => ⟨depth, "-"⟩ :: (rows (depth + 1) v ++ rowsOfItems depth rest)

end

def labelledRows (depth : Nat) (label : String) : Node → List Row
  | .scalar value => [⟨depth, label ++ ": " ++ value.display⟩]
  | value => ⟨depth, label ++ ":"⟩ :: value.rows (depth + 1)

theorem rowsOfEntries_cons (depth : Nat) (k : String) (v : Node) (rest : List (String × Node)) :
    rowsOfEntries depth ((k, v) :: rest) = v.labelledRows depth k ++ rowsOfEntries depth rest := by
  cases v <;> rfl

theorem rows_mapping (depth : Nat) (entries : List (String × Node)) :
    (mapping entries).rows depth =
      entries.flatMap fun entry => entry.2.labelledRows depth entry.1 := by
  rw [rows]
  induction entries with
  | nil => rfl
  | cons entry rest ih => rw [rowsOfEntries_cons, List.flatMap_cons, ← ih]

theorem rows_list (depth : Nat) (items : List Node) :
    (list items).rows depth = items.flatMap fun item => ⟨depth, "-"⟩ :: item.rows (depth + 1) := by
  rw [rows]
  induction items with
  | nil => rfl
  | cons item rest ih =>
    rw [List.flatMap_cons, ← ih]
    rfl

private theorem listingEntries_cons {depth : Nat} {v : Node}
    (h : v.listing (depth + 1) = String.join ((v.rows (depth + 1)).map Row.written)) (k : String)
    (rest : List (String × Node)) :
    listingEntries depth ((k, v) :: rest) =
      String.join ((v.labelledRows depth k).map Row.written) ++ listingEntries depth rest := by
  cases v with
  | scalar value => simp [listingEntries, labelledRows, Row.written]
  | mapping entries => simp [listingEntries, labelledRows, Row.written, h]
  | list items => simp [listingEntries, labelledRows, Row.written, h]

mutual

theorem listing_eq_join : ∀ (node : Node) (depth : Nat),
    node.listing depth = String.join ((node.rows depth).map Row.written)
  | .mapping entries, depth => listingEntries_eq_join entries depth
  | .list items, depth => listingItems_eq_join items depth
  | .scalar value, depth => by simp [listing, rows, Row.written]

private theorem listingEntries_eq_join : ∀ (entries : List (String × Node)) (depth : Nat),
    listingEntries depth entries = String.join ((rowsOfEntries depth entries).map Row.written)
  | [], _ => rfl
  | (k, v) :: rest, depth => by
    rw [listingEntries_cons (listing_eq_join v (depth + 1)), listingEntries_eq_join rest depth,
      rowsOfEntries_cons, List.map_append, String.join_append]

private theorem listingItems_eq_join : ∀ (items : List Node) (depth : Nat),
    listingItems depth items = String.join ((rowsOfItems depth items).map Row.written)
  | [], _ => rfl
  | v :: rest, depth => by
    rw [listingItems, rowsOfItems, List.map_cons, List.map_append, String.join_cons,
      String.join_append, listing_eq_join v (depth + 1), listingItems_eq_join rest depth,
      String.append_assoc]
    rfl

end

end Node

namespace TextReport

/-- The rows of an event. The header of an object comes after an empty row. -/
def rows (palette : Palette) : Event → List Row
  | .objectRemoved object => [⟨0, palette .removal ("- " ++ object.title ++ " (removed)")⟩]
  | .objectAdded object => [⟨0, palette .addition ("+ " ++ object.title ++ " (added)")⟩]
  | .objectHeader _ => [⟨0, ""⟩, ⟨0, "---"⟩]
  | .sectionHeader path => [⟨labelDepth path, palette .modification (label path ++ ":")⟩]
  | .unchanged path value => value.labelledRows (labelDepth path) (label path)
  | .added path value =>
    [⟨labelDepth path, palette .addition ("+ " ++ label path ++ ": " ++ value.summary)⟩]
  | .removed path value =>
    [⟨labelDepth path, palette .removal ("- " ++ label path ++ ": " ++ value.summary)⟩]
  | .nested path => [⟨labelDepth path, palette .modification (nestedText path)⟩]
  | .modified path (some key) old new =>
    [⟨labelDepth path, palette .modification ("~~ " ++ (key ++ ": ") ++ old.summary)⟩,
      ⟨labelDepth path, palette .modification ("~> " ++ (key ++ ": ") ++ new.summary)⟩]
  | .modified path none old new =>
    [⟨path.depth, palette .modification ("~~ " ++ "" ++ old.summary)⟩,
      ⟨path.depth, palette .modification ("~> " ++ "" ++ new.summary)⟩]
  | .structuralAddition path _ value tainted =>
    [⟨labelDepth path, palette .addition ("+" ++ " ") ++
      (if tainted then palette .taint "! " else "") ++
        palette .addition (label path ++ ": " ++ value.summary)⟩]
  | .structuralRemoval path _ value tainted =>
    [⟨labelDepth path, palette .removal ("-" ++ " ") ++
      (if tainted then palette .taint "! " else "") ++
        palette .removal (label path ++ ": " ++ value.summary)⟩]

private theorem unchanged_eq_listing (path : Path) (value : Node) :
    unchanged path value = (Node.mapping [(label path, value)]).listing (labelDepth path) := by
  cases value <;> simp [unchanged, Node.listing, Node.listingEntries]

private theorem unchanged_eq_join (path : Path) (value : Node) :
    unchanged path value =
      String.join ((value.labelledRows (labelDepth path) (label path)).map Row.written) := by
  rw [unchanged_eq_listing, Node.listing_eq_join, Node.rows_mapping, List.flatMap_singleton]

theorem lines_eq_join (palette : Palette) (event : Event) :
    lines palette event = String.join ((rows palette event).map Row.written) := by
  cases event with
  | unchanged path value => exact unchanged_eq_join path value
  | objectHeader object => rfl
  | modified path key old new =>
    cases key <;> simp [lines, rows, replacement, painted, Row.written]
  | _ => simp [lines, rows, painted, structural, Row.written]

theorem linesOf_lines (palette : Palette) (event : Event) :
    linesOf (lines palette event) = (rows palette event).flatMap Row.lines := by
  rw [lines_eq_join, Row.linesOf_join]

/-- The lines of a report are those of its events, in order. -/
theorem splitOn_join_lines (palette : Palette) (events : List Event) :
    (String.join (events.map (lines palette))).toList.splitOn '\n' =
      (events.flatMap fun event => linesOf (lines palette event)) ++ [[]] := by
  have hrows : String.join (events.map (lines palette)) =
      String.join ((events.flatMap (rows palette)).map Row.written) := by
    induction events with
    | nil => rfl
    | cons e events ih =>
      rw [List.map_cons, String.join_cons, ih, lines_eq_join, List.flatMap_cons, List.map_append,
        String.join_append]
  simp only [hrows, Row.splitOn_join, linesOf_lines, List.flatMap_assoc]

end TextReport
end ManifestDiff
