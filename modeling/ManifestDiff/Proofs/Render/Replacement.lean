import ManifestDiff.Proofs.Yaml.Unambiguous
import ManifestDiff.Render.Text
import Mathlib.Data.List.TakeWhile
/-!
# Replaced scalars

A scalar of one line is summarised by its YAML text without outer blanks. Only a plain string can
begin or end with a blank, so unless one of two scalars is such a string, their summaries tell them
apart.
-/
namespace ManifestDiff

open Yaml Yaml.Quoting

/-- A plain string that begins or ends with a blank. -/
def Scalar.Padded : Scalar → Prop
  | .string s => Quoting.style s.toList = .plain ∧
      ((∃ c ∈ s.toList.head?, isBlank c = true) ∨ ∃ c ∈ s.toList.getLast?, isBlank c = true)
  | _ => False

theorem Scalar.summary_eq {a : Scalar} (h : a.OneLine) :
    (Node.scalar a).summary = String.ofList (trim (a.yamlText 2).toList) := by
  have htext : trim (Node.scalar a).blockText.toList = trim (a.yamlText 2).toList := by
    rw [Node.blockText, String.toList_append]
    exact trim_concat (by decide) _
  have hline : (trim (a.yamlText 2).toList).takeWhile (· != '\n') = trim (a.yamlText 2).toList := by
    rw [List.takeWhile_eq_self_iff]
    intro c hc
    have hne : c ≠ '\n' := by
      rintro rfl
      exact h (trim_subset _ hc)
    simpa using hne
  simp only [Node.summary, htext, hline, Nat.lt_irrefl, if_false]

private theorem isBlank_of_mem_toString {i : Int} {c : Char} (h : c ∈ (toString i).toList) :
    isBlank c = false := by
  cases i with
  | ofNat n =>
    change c ∈ (toString n).toList at h
    rw [Numeral.toList_toString_natural] at h
    exact not_isBlank_of_isDigit (Numeral.isDigit_of_mem_toDigits h)
  | negSucc n =>
    rw [Numeral.toList_toString_negSucc] at h
    rcases List.mem_cons.mp h with rfl | h
    · decide
    · exact not_isBlank_of_isDigit (Numeral.isDigit_of_mem_toDigits h)

private theorem trim_quoted {mark : Char} (h : isBlank mark = false) (cs : List Char) :
    trim (mark :: (cs ++ [mark])) = mark :: (cs ++ [mark]) := by
  apply trim_eq_self
  · simpa using h
  · rw [← List.cons_append, List.getLast?_concat]
    simpa using h

namespace Scalar

variable {a b : Scalar}

/-- Only padded strings lose anything. -/
theorem trim_yamlText (hfloat : ∀ x, a ≠ .float x) (hline : a.OneLine) (h : ¬a.Padded) :
    trim (a.yamlText 2).toList = (a.yamlText 2).toList := by
  cases a with
  | null => rw [yamlText]; decide
  | bool b => cases b <;> rw [yamlText] <;> decide
  | int i => exact trim_eq_self_of_not_blank fun _ => isBlank_of_mem_toString
  | uint n =>
    have hdigits : (toString n.toNat).toList = (toString (n.toNat : Int)).toList := rfl
    rw [yamlText, hdigits]
    exact trim_eq_self_of_not_blank fun _ => isBlank_of_mem_toString
  | float x => exact absurd rfl (hfloat x)
  | string s =>
    rw [yamlText, String.toList_ofList, write]
    cases hstyle : Quoting.style s.toList with
    | plain =>
      simp only [Padded, hstyle, true_and, not_or, not_exists, not_and, Bool.not_eq_true] at h
      exact trim_eq_self h.1 h.2
    | singleQuoted => exact trim_quoted (by decide) _
    | doubleQuoted => exact trim_quoted (by decide) _
    | literal => exact absurd hstyle (style_ne_literal hline)

theorem summary_eq_iff (ha : a.Normal) (hb : b.Normal) (hfa : ∀ x, a ≠ .float x)
    (hfb : ∀ x, b ≠ .float x) (hla : a.OneLine) (hlb : b.OneLine) :
    (Node.scalar a).summary = (Node.scalar b).summary ↔ a = b ∨
      (a.Padded ∨ b.Padded) ∧ trim (a.yamlText 2).toList = trim (b.yamlText 2).toList := by
  rw [summary_eq hla, summary_eq hlb, String.ofList_inj]
  constructor
  · intro h
    by_cases hpadded : a.Padded ∨ b.Padded
    · exact .inr ⟨hpadded, h⟩
    · obtain ⟨hpa, hpb⟩ := not_or.mp hpadded
      rw [trim_yamlText hfa hla hpa, trim_yamlText hfb hlb hpb] at h
      exact .inl (eq_of_yamlText ha hb hfa hfb hla (String.toList_inj.mp h))
  · rintro (rfl | ⟨-, h⟩)
    · rfl
    · exact h

theorem equal_eq_true_iff (hfloat : ∀ x, a ≠ .float x) : a.equal b = true ↔ a = b := by
  cases a with
  | float x => exact absurd rfl (hfloat x)
  | _ => cases b <;> simp [equal]

end Scalar

namespace TextReport

theorem lines_modified (palette : Palette) (path : Path) (key : Option String) (old new : Node) :
    ∃ depth start, lines palette (.modified path key old new) =
      painted palette depth .modification ("~~ " ++ start ++ old.summary) ++
        painted palette depth .modification ("~> " ++ start ++ new.summary) := by
  cases key with
  | none => exact ⟨path.depth, "", rfl⟩
  | some key => exact ⟨labelDepth path, key ++ ": ", rfl⟩

end TextReport

/-- The lines of a scalar that is replaced by an unequal one show the same text exactly where a padded
string is among the two and the blanks around it are all that tells them apart. -/
theorem replacement_shown_iff {a b : Scalar} (ha : (Node.scalar a).Decoded)
    (hb : (Node.scalar b).Decoded) (hfa : ∀ x, a ≠ .float x) (hfb : ∀ x, b ≠ .float x)
    (hla : a.OneLine) (hlb : b.OneLine) (palette : Palette) (path : Path) (key : Option String) :
    (∃ depth start, TextReport.lines palette (.modified path key (.scalar a) (.scalar b)) =
      TextReport.painted palette depth .modification ("~~ " ++ start ++ (Node.scalar a).summary) ++
        TextReport.painted palette depth .modification
          ("~> " ++ start ++ (Node.scalar b).summary)) ∧
    ((Node.scalar a).summary = (Node.scalar b).summary ↔ a.equal b = true ∨
      (a.Padded ∨ b.Padded) ∧ trim (a.yamlText 2).toList = trim (b.yamlText 2).toList) := by
  refine ⟨TextReport.lines_modified palette path key _ _, ?_⟩
  rw [Scalar.equal_eq_true_iff hfa]
  exact Scalar.summary_eq_iff ((Node.normal_scalar_iff).mp ha.normal)
    ((Node.normal_scalar_iff).mp hb.normal) hfa hfb hla hlb

/-- A number is told from a string of its digits, which is quoted. -/
theorem replacement_shown_port :
    (Node.scalar (.string "80")).Decoded ∧ (Node.scalar (.int 80)).Decoded ∧
    (Scalar.string "80").OneLine ∧ (Scalar.int 80).OneLine ∧
    (Node.scalar (.string "80")).summary ≠ (Node.scalar (.int 80)).summary := by
  have hstring : (Node.scalar (.string "80")).Decoded := .json (.string "80")
  have hint : (Node.scalar (.int 80)).Decoded := .json (.number (.natural 80))
  have hline : (Scalar.string "80").OneLine := by decide
  have hline' : (Scalar.int 80).OneLine := by decide
  refine ⟨hstring, hint, hline, hline', ?_⟩
  intro h
  rcases (replacement_shown_iff hstring hint nofun nofun hline hline' .plain [] none).2.mp h with h | h
  · exact absurd h (by decide)
  · rcases h with ⟨h | h, -⟩
    · exact absurd h.1 (by decide)
    · exact h

/-- A string that begins with a no-break space is shown like the number behind the space. -/
theorem replacement_hidden_port :
    (Node.scalar (.string "\u00a080")).Decoded ∧ (Node.scalar (.int 80)).Decoded ∧
    (Scalar.string "\u00a080").OneLine ∧ (Scalar.int 80).OneLine ∧
    (Scalar.string "\u00a080").equal (.int 80) = false ∧
    (Node.scalar (.string "\u00a080")).summary = (Node.scalar (.int 80)).summary ∧
    TextReport.lines .plain
      (.modified [] none (.scalar (.string "\u00a080")) (.scalar (.int 80))) =
        "~~ 80\n~> 80\n" := by
  refine ⟨.json (.string "\u00a080"), .json (.number (.natural 80)), ?_⟩
  decide

end ManifestDiff
