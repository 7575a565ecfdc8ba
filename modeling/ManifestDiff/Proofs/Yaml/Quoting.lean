import ManifestDiff.Yaml.Quoting
import Mathlib.Data.List.Basic
/-!
# Written strings are printable

Whatever characters a string has, it is written with printable characters only: a style that takes
the characters as they are is chosen for printable ones, and the double-quoted style escapes the
others.
-/
namespace ManifestDiff.Yaml.Quoting

theorem needsEscape_of_style {cs : List Char} (h : style cs ≠ .doubleQuoted) :
    needsEscape cs = false := by
  rw [style] at h
  split at h
  · by_cases hfits : fitsLiteral cs = true
    · simp only [fitsLiteral, Bool.and_eq_true, Bool.not_eq_true'] at hfits
      exact hfits.1.1
    · simp [hfits] at h
  · by_cases hplain : (readsAsText cs && fitsPlain cs) = true
    · simp only [fitsPlain, Bool.and_eq_true, Bool.not_eq_true'] at hplain
      exact hplain.2.1.1.1.1
    · by_cases hsingle : fitsSingleQuoted cs = true
      · simp only [fitsSingleQuoted, Bool.and_eq_true, Bool.not_eq_true'] at hsingle
        exact hsingle.1
      · simp [hplain, hsingle] at h

theorem isPrintable_of_style {cs : List Char} (h : style cs ≠ .doubleQuoted) :
    ∀ c ∈ cs, isPrintable c = true := by
  have hneeds := needsEscape_of_style h
  simp only [needsEscape, Bool.or_eq_false_iff, List.any_eq_false] at hneeds
  intro c hc
  simpa using hneeds.1 c hc

theorem isPrintable_of_shortEscape? {c letter : Char} (h : shortEscape? c = some letter) :
    isPrintable letter = true := by
  rw [shortEscape?.eq_def] at h
  split at h <;> cases h <;> decide

private theorem isPrintable_hexDigit : ∀ n < 16, isPrintable (hexDigit n) = true := by decide

theorem isPrintable_of_mem_hex {width n : Nat} {d : Char} (h : d ∈ hex width n) :
    isPrintable d = true := by
  induction width generalizing n with
  | zero => cases h
  | succ width ih =>
    rw [hex, List.mem_append, List.mem_singleton] at h
    rcases h with h | rfl
    · exact ih h
    · exact isPrintable_hexDigit _ (Nat.mod_lt _ (by decide))

theorem isPrintable_of_mem_escape {c d : Char} (h : d ∈ escape c) : isPrintable d = true := by
  have hbackslash : isPrintable '\\' = true := by decide
  have hcoded (mark : Char) (width : Nat) (hmark : isPrintable mark = true)
      (hd : d ∈ '\\' :: mark :: hex width c.toNat) : isPrintable d = true := by
    rcases List.mem_cons.mp hd with rfl | hd
    · exact hbackslash
    · rcases List.mem_cons.mp hd with rfl | hd
      · exact hmark
      · exact isPrintable_of_mem_hex hd
  rw [escape] at h
  split at h
  next letter hletter =>
    rcases List.mem_cons.mp h with rfl | h
    · exact hbackslash
    · rw [List.mem_singleton.mp h]
      exact isPrintable_of_shortEscape? hletter
  next =>
    split at h
    next hprintable => rwa [List.mem_singleton.mp h]
    next =>
      split at h
      · exact hcoded 'x' 2 (by decide) h
      · split at h
        · exact hcoded 'u' 4 (by decide) h
        · exact hcoded 'U' 8 (by decide) h

theorem mem_of_mem_singleQuoted {indent : Nat} {atLineStart : Bool} {cs : List Char} {d : Char}
    (h : d ∈ singleQuoted indent atLineStart cs) : d = ' ' ∨ d ∈ cs := by
  have hblank (atLineStart : Bool)
      (hd : d ∈ if atLineStart = true then List.replicate indent ' ' else []) : d = ' ' := by
    cases atLineStart with
    | false => cases hd
    | true => exact List.eq_of_mem_replicate hd
  induction cs generalizing atLineStart with
  | nil => exact .inl (hblank atLineStart h)
  | cons c cs ih =>
    rw [singleQuoted] at h
    split at h
    next =>
      rcases List.mem_cons.mp h with rfl | h
      · exact .inr List.mem_cons_self
      · exact (ih h).imp_right (List.mem_cons_of_mem c)
    next =>
      rw [List.mem_append, List.mem_append] at h
      rcases h with (h | h) | h
      · exact .inl (hblank atLineStart h)
      · -- a quote is written twice, every other character once
        have hd : d = c := by
          split at h
          next hquote => simpa [beq_iff_eq.mp hquote] using h
          next => exact List.mem_singleton.mp h
        exact .inr (hd ▸ List.mem_cons_self)
      · exact (ih h).imp_right (List.mem_cons_of_mem c)

theorem mem_of_mem_literalLines {indent : Nat} {atLineStart : Bool} {cs : List Char} {d : Char}
    (h : d ∈ literalLines indent atLineStart cs) : d = ' ' ∨ d ∈ cs := by
  induction cs generalizing atLineStart with
  | nil => cases h
  | cons c cs ih =>
    rw [literalLines] at h
    split at h
    next =>
      rcases List.mem_cons.mp h with rfl | h
      · exact .inr List.mem_cons_self
      · exact (ih h).imp_right (List.mem_cons_of_mem c)
    next =>
      rcases List.mem_append.mp h with h | h
      · cases atLineStart with
        | false => cases h
        | true => exact .inl (List.eq_of_mem_replicate h)
      · rcases List.mem_cons.mp h with rfl | h
        · exact .inr List.mem_cons_self
        · exact (ih h).imp_right (List.mem_cons_of_mem c)

private theorem isPrintable_of_mem_literalMark {cs : List Char} {d : Char}
    (h : d ∈ literalMark cs) : isPrintable d = true := by
  have hmark : d = '2' ∨ d = '-' ∨ d = '+' := by
    rw [literalMark, List.mem_append] at h
    rcases h with h | h
    · split at h
      · exact .inl (List.mem_singleton.mp h)
      · cases h
    · repeat' split at h
      all_goals simp_all
  rcases hmark with rfl | rfl | rfl <;> decide

theorem isPrintable_of_mem_write {indent : Nat} {s : String} {d : Char} (h : d ∈ write indent s) :
    isPrintable d = true := by
  have hblank : isPrintable ' ' = true := by decide
  rw [write] at h
  cases hstyle : style s.toList with
  | plain =>
    rw [hstyle] at h
    exact isPrintable_of_style (by simp [hstyle]) d h
  | singleQuoted =>
    have hall : ∀ c ∈ s.toList, isPrintable c = true := isPrintable_of_style (by simp [hstyle])
    simp only [hstyle, List.mem_cons, List.mem_append, List.not_mem_nil, or_false] at h
    rcases h with rfl | h | rfl
    · decide
    · rcases mem_of_mem_singleQuoted h with rfl | h
      · exact hblank
      · exact hall d h
    · decide
  | doubleQuoted =>
    simp only [hstyle, List.mem_cons, List.mem_append, List.not_mem_nil, or_false,
      List.mem_flatMap] at h
    rcases h with rfl | ⟨c, -, h⟩ | rfl
    · decide
    · exact isPrintable_of_mem_escape h
    · decide
  | literal =>
    have hall : ∀ c ∈ s.toList, isPrintable c = true := isPrintable_of_style (by simp [hstyle])
    simp only [hstyle, List.mem_cons, List.mem_append] at h
    rcases h with rfl | h | rfl | h
    · decide
    · exact isPrintable_of_mem_literalMark h
    · decide
    · rcases mem_of_mem_literalLines h with rfl | h
      · exact hblank
      · exact hall d h

theorem esc_not_mem_write (indent : Nat) (s : String) : '\x1b' ∉ write indent s := by
  intro h
  exact absurd (isPrintable_of_mem_write h) (by decide)

end ManifestDiff.Yaml.Quoting
