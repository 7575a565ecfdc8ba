import ManifestDiff.Proofs.Render.Rows
/-!
# Listings and their indentation

A listing has a row for each key and each dash, and one for a scalar that is not under a key; none
of them is indented less than the listing. Rows and lines are the same if no key and no string has a
line feed in it. Else there are more lines than rows, and as keys and strings are written as they
are, a line may start with whatever stands behind the line feed.
-/
namespace ManifestDiff

namespace Node

mutual

/-- The number of lines that a listing of the tree should have: a collection has one for each key or
item, and those of the collections and items in it. -/
def lineCount : Node → Nat
  | .mapping entries => lineCountEntries entries
  | .list items => lineCountItems items
  | .scalar _ => 1

def lineCountEntries : List (String × Node) → Nat
  | [] => 0
  | (_, .scalar _) :: rest => 1 + lineCountEntries rest
  | (_, v) :: rest => 1 + lineCount v + lineCountEntries rest

def lineCountItems : List Node → Nat
  | [] => 0
  | v :: rest => 1 + lineCount v + lineCountItems rest

end

def labelledLineCount : Node → Nat
  | .scalar _ => 1
  | value => 1 + value.lineCount

/-- No key and no string in the tree has a line feed in it. -/
inductive OneLine : Node → Prop
  | mapping {entries : List (String × Node)} (hkeys : ∀ entry ∈ entries, '\n' ∉ entry.1.toList)
    (h : ∀ entry ∈ entries, OneLine entry.2) : OneLine (.mapping entries)
  | list {items : List Node} (h : ∀ item ∈ items, OneLine item) : OneLine (.list items)
  | scalar {value : Scalar} (h : ∀ s, value = .string s → '\n' ∉ s.toList) :
    OneLine (.scalar value)

private theorem length_labelledRows_of {value : Node} {depth : Nat} {label : String}
    (h : (value.rows (depth + 1)).length = value.lineCount) :
    (value.labelledRows depth label).length = value.labelledLineCount := by
  cases value with
  | scalar value => rfl
  | mapping entries => exact (congrArg (· + 1) h).trans (Nat.add_comm _ _)
  | list items => exact (congrArg (· + 1) h).trans (Nat.add_comm _ _)

private theorem lineCountEntries_cons (k : String) (v : Node) (rest : List (String × Node)) :
    lineCountEntries ((k, v) :: rest) = v.labelledLineCount + lineCountEntries rest := by
  cases v <;> rfl

mutual

theorem length_rows : ∀ (node : Node) (depth : Nat), (node.rows depth).length = node.lineCount
  | .mapping entries, depth => length_rowsOfEntries entries depth
  | .list items, depth => length_rowsOfItems items depth
  | .scalar _, _ => rfl

private theorem length_rowsOfEntries : ∀ (entries : List (String × Node)) (depth : Nat),
    (rowsOfEntries depth entries).length = lineCountEntries entries
  | [], _ => rfl
  | (k, v) :: rest, depth => by
    rw [rowsOfEntries_cons, lineCountEntries_cons, List.length_append,
      length_labelledRows_of (length_rows v (depth + 1)), length_rowsOfEntries rest depth]

private theorem length_rowsOfItems : ∀ (items : List Node) (depth : Nat),
    (rowsOfItems depth items).length = lineCountItems items
  | [], _ => rfl
  | v :: rest, depth => by
    have hvalue := length_rows v (depth + 1)
    have hrest := length_rowsOfItems rest depth
    rw [rowsOfItems, lineCountItems, List.length_cons, List.length_append, hvalue, hrest]
    omega

end

theorem length_labelledRows (value : Node) (depth : Nat) (label : String) :
    (value.labelledRows depth label).length = value.labelledLineCount :=
  length_labelledRows_of (length_rows value (depth + 1))

private theorem le_depth_of_labelledRows {value : Node} {depth : Nat} {label : String}
    (h : ∀ row ∈ value.rows (depth + 1), depth + 1 ≤ row.depth) :
    ∀ row ∈ value.labelledRows depth label, depth ≤ row.depth := by
  have hbody : ∀ row ∈ value.rows (depth + 1), depth ≤ row.depth := fun row hrow =>
    Nat.le_of_succ_le (h row hrow)
  cases value with
  | scalar value => exact List.forall_mem_singleton.mpr (Nat.le_refl depth)
  | mapping entries => exact List.forall_mem_cons.mpr ⟨Nat.le_refl depth, hbody⟩
  | list items => exact List.forall_mem_cons.mpr ⟨Nat.le_refl depth, hbody⟩

theorem le_depth_of_mem_rows (node : Node) (depth : Nat) :
    ∀ row ∈ node.rows depth, depth ≤ row.depth := by
  induction node generalizing depth with
  | mapping entries ih =>
    rw [rows_mapping, List.forall_mem_flatMap]
    intro entry hentry
    exact le_depth_of_labelledRows (ih entry hentry (depth + 1))
  | list items ih =>
    rw [rows_list, List.forall_mem_flatMap]
    intro item hitem
    rw [List.forall_mem_cons]
    refine ⟨Nat.le_refl depth, ?_⟩
    intro row hrow
    exact Nat.le_of_succ_le (ih item hitem (depth + 1) row hrow)
  | scalar value => exact List.forall_mem_singleton.mpr (Nat.le_refl depth)

theorem lineFeed_not_mem_display_iff {value : Scalar} :
    '\n' ∉ value.display.toList ↔ ∀ s, value = .string s → '\n' ∉ s.toList := by
  constructor
  · rintro h s rfl
    exact h
  · intro h
    match value with
    | .null => decide
    | .bool b => cases b <;> decide
    | .int i => exact (printable_integer _).lineFeed_not_mem
    | .uint n => exact (printable_natural _).lineFeed_not_mem
    | .float .nan => decide
    | .float (.infinite negative) => cases negative <;> decide
    | .float (.finite negative index) =>
      exact (Layout.listing.printable_finite negative index).lineFeed_not_mem
    | .string s => exact h s rfl

theorem oneLine_mapping_iff {entries : List (String × Node)} :
    (mapping entries).OneLine ↔ ∀ entry ∈ entries, '\n' ∉ entry.1.toList ∧ entry.2.OneLine := by
  constructor
  · intro h entry hentry
    cases h with | mapping hkeys h =>
    exact ⟨hkeys entry hentry, h entry hentry⟩
  · intro h
    exact .mapping (fun entry hentry => (h entry hentry).1) fun entry hentry => (h entry hentry).2

theorem oneLine_list_iff {items : List Node} :
    (list items).OneLine ↔ ∀ item ∈ items, item.OneLine := by
  constructor
  · intro h
    cases h with | list h =>
    exact h
  · exact OneLine.list

theorem oneLine_scalar_iff {value : Scalar} :
    (scalar value).OneLine ↔ '\n' ∉ value.display.toList := by
  rw [lineFeed_not_mem_display_iff]
  constructor
  · intro h
    cases h with | scalar h =>
    exact h
  · exact OneLine.scalar

private theorem oneLine_labelledRows_iff {value : Node} {depth : Nat} {label : String}
    (h : (∀ row ∈ value.rows (depth + 1), '\n' ∉ row.text.toList) ↔ value.OneLine) :
    (∀ row ∈ value.labelledRows depth label, '\n' ∉ row.text.toList) ↔
      '\n' ∉ label.toList ∧ value.OneLine := by
  cases value with
  | scalar value => simp [labelledRows, oneLine_scalar_iff]
  | mapping entries => simp [labelledRows, h]
  | list items => simp [labelledRows, h]

/-- The rows of a listing are lines exactly if no key and no string has a line feed in it. -/
theorem oneLine_rows_iff (node : Node) (depth : Nat) :
    (∀ row ∈ node.rows depth, '\n' ∉ row.text.toList) ↔ node.OneLine := by
  induction node generalizing depth with
  | mapping entries ih =>
    rw [rows_mapping, List.forall_mem_flatMap, oneLine_mapping_iff]
    apply forall₂_congr
    intro entry hentry
    exact oneLine_labelledRows_iff (ih entry hentry (depth + 1))
  | list items ih =>
    rw [rows_list, List.forall_mem_flatMap, oneLine_list_iff]
    apply forall₂_congr
    intro item hitem
    rw [List.forall_mem_cons, ih item hitem (depth + 1)]
    have hdash : '\n' ∉ "-".toList := by decide
    exact and_iff_right hdash
  | scalar value => rw [rows, List.forall_mem_singleton, oneLine_scalar_iff]

end Node

/-- How a text falls apart into lines that is written in a number of rows, at this depth or deeper.
There are as many lines as rows, all of them indented, if no row has a line feed in it, and more
lines else. -/
structure Listed (depth count : Nat) (oneLine : Prop) (rows : List Row) (text : String) :
    Prop where
  split : text.toList.splitOn '\n' = rows.flatMap Row.lines ++ [[]]
  length : rows.length = count
  deep : ∀ row ∈ rows, depth ≤ row.depth
  exact : oneLine → (rows.flatMap Row.lines).length = count
  more : ¬oneLine → count < (rows.flatMap Row.lines).length
  indented : oneLine → ∀ line ∈ rows.flatMap Row.lines, List.replicate (2 * depth) ' ' <+: line

theorem Listed.of_rows {depth count : Nat} {oneLine : Prop} {rows : List Row}
    (hlength : rows.length = count) (hdepth : ∀ row ∈ rows, depth ≤ row.depth)
    (honeLine : (∀ row ∈ rows, '\n' ∉ row.text.toList) ↔ oneLine) :
    Listed depth count oneLine rows (String.join (rows.map Row.written)) where
  split := Row.splitOn_join rows
  length := hlength
  deep := hdepth
  exact := by
    rw [← honeLine, ← Row.count_flatMap_text_eq_zero_iff, Row.length_flatMap_lines, hlength]
    omega
  more := by
    rw [← honeLine, ← Row.count_flatMap_text_eq_zero_iff, Row.length_flatMap_lines, hlength]
    omega
  indented := by
    rw [← honeLine, List.forall_mem_flatMap]
    intro h row hrow
    have hprefix : List.replicate (2 * depth) ' ' <+: List.replicate (2 * row.depth) ' ' := by
      obtain ⟨more, hmore⟩ := Nat.exists_eq_add_of_le (Nat.mul_le_mul_left 2 (hdepth row hrow))
      rw [hmore, List.replicate_add]
      exact List.prefix_append _ _
    rw [Row.lines_of_not_mem (h row hrow), List.forall_mem_singleton]
    exact hprefix.trans (List.prefix_append _ _)

theorem Node.listing_listed (node : Node) (depth : Nat) :
    Listed depth node.lineCount node.OneLine (node.rows depth) (node.listing depth) := by
  rw [listing_eq_join]
  exact .of_rows (node.length_rows depth) (node.le_depth_of_mem_rows depth)
    (node.oneLine_rows_iff depth)

namespace TextReport

theorem unchanged_listed (palette : Palette) (path : Path) (value : Node) :
    Listed (labelDepth path) value.labelledLineCount
      ('\n' ∉ (label path).toList ∧ value.OneLine)
      (value.labelledRows (labelDepth path) (label path))
      (lines palette (.unchanged path value)) := by
  rw [lines_eq_join]
  exact .of_rows (value.length_labelledRows _ _)
    (Node.le_depth_of_labelledRows (value.le_depth_of_mem_rows _))
    (Node.oneLine_labelledRows_iff (value.oneLine_rows_iff _))

theorem body_of_unchanged {path : Path} {value : Node} (h : ∀ scalar, value ≠ .scalar scalar) :
    ∃ header body, value.labelledRows (labelDepth path) (label path) = header :: body ∧
      header.depth = labelDepth path ∧ ∀ row ∈ body, labelDepth path < row.depth := by
  have hbody := value.le_depth_of_mem_rows (labelDepth path + 1)
  cases value with
  | scalar scalar => exact absurd rfl (h scalar)
  | mapping entries => exact ⟨_, _, rfl, rfl, hbody⟩
  | list items => exact ⟨_, _, rfl, rfl, hbody⟩

end TextReport

/-- Listings stay inside their indentation, and have the lines that they should have, as far as no
key and no string has a line feed in it; else there are more lines than that. The same holds of the
unchanged values of a report, and their bodies are indented deeper than their labels. -/
theorem listings_listed (node : Node) :
    (∀ depth, Listed depth node.lineCount node.OneLine (node.rows depth) (node.listing depth)) ∧
      ∀ palette path,
        Listed (TextReport.labelDepth path) node.labelledLineCount
          ('\n' ∉ (TextReport.label path).toList ∧ node.OneLine)
          (node.labelledRows (TextReport.labelDepth path) (TextReport.label path))
          (TextReport.lines palette (.unchanged path node)) ∧
        ((∀ scalar, node ≠ .scalar scalar) → ∃ header body,
          node.labelledRows (TextReport.labelDepth path) (TextReport.label path) = header :: body ∧
            header.depth = TextReport.labelDepth path ∧
            ∀ row ∈ body, TextReport.labelDepth path < row.depth) := by
  constructor
  · exact node.listing_listed
  · intro palette path
    exact ⟨TextReport.unchanged_listed palette path node, TextReport.body_of_unchanged⟩

/-- A string with a line feed in it is listed on two lines instead of one. The second one is not
indented, and may be the line that tells of a removed object. -/
theorem listing_of_multiline_note :
    (Node.mapping [("note", .string "a\n- Secret b (removed)")]).lineCount = 1 ∧
      linesOf ((Node.mapping [("note", .string "a\n- Secret b (removed)")]).listing 1) =
        ["  note: a".toList, "- Secret b (removed)".toList] ∧
      ¬List.replicate (2 * 1) ' ' <+: "- Secret b (removed)".toList ∧
      linesOf (TextReport.lines .plain (.objectRemoved ⟨"Secret", none, "b"⟩)) =
        ["- Secret b (removed)".toList] :=
  ⟨rfl, by decide, by decide, by decide⟩

end ManifestDiff
