import ManifestDiff.Number.Layout
import ManifestDiff.Number.Numeral
import Mathlib.Data.List.Basic
/-!
# Numerals

A number is written with digits, a point, the letter of an exponent and signs. In a layout that keeps
the fraction of a whole number, a float is never written with digits alone. The decimal digits of a
number have no leading zero and spell the number again.
-/
namespace ManifestDiff

def isNumeral (c : Char) : Bool := c.isDigit || c ∈ ['.', 'e', '+', '-']

theorem isNumeral_of_isDigit {c : Char} (h : c.isDigit = true) : isNumeral c = true := by
  rw [isNumeral, h, Bool.true_or]

theorem isNumeral_of_mem_toDigits {n : Nat} {c : Char} (h : c ∈ Nat.toDigits 10 n) :
    isNumeral c = true :=
  isNumeral_of_isDigit (Nat.isDigit_of_mem_toDigits (by decide) (by decide) h)

namespace Layout

variable {layout : Layout} {ds : List Char}

private theorem isNumeral_of_mem_zeros {n : Nat} {c : Char} (h : c ∈ List.replicate n '0') :
    isNumeral c = true := by
  rw [List.eq_of_mem_replicate h]
  decide

private theorem isNumeral_positional (h : ∀ c ∈ ds, isNumeral c = true) (k : Int) :
    ∀ c ∈ layout.positional ds k, isNumeral c = true := by
  rw [positional]
  split
  · cases layout.keepsFraction <;>
      simp only [Bool.false_eq_true, if_false, if_true, List.forall_mem_append]
    · exact ⟨⟨h, fun _ => isNumeral_of_mem_zeros⟩, nofun⟩
    · exact ⟨⟨h, fun _ => isNumeral_of_mem_zeros⟩, by simp [isNumeral]⟩
  · dsimp only
    split
    · rw [List.forall_mem_append, List.forall_mem_cons]
      exact ⟨fun c hc => h c (List.mem_of_mem_take hc), by decide,
        fun c hc => h c (List.mem_of_mem_drop hc)⟩
    · rw [List.forall_mem_cons, List.forall_mem_cons, List.forall_mem_append]
      exact ⟨by decide, by decide, fun _ => isNumeral_of_mem_zeros, h⟩

private theorem isNumeral_scientific (h : ∀ c ∈ ds, isNumeral c = true) (exponent : Int) :
    ∀ c ∈ layout.scientific ds exponent, isNumeral c = true := by
  rw [scientific.eq_def, List.forall_mem_append, List.forall_mem_cons, List.forall_mem_append]
  refine ⟨?mantissa, by decide, ?sign, fun _ => isNumeral_of_mem_toDigits⟩
  case mantissa =>
    match ds with
    | [] | [d] => exact h
    | d :: e :: rest =>
      obtain ⟨hd, hrest⟩ := List.forall_mem_cons.mp h
      exact List.forall_mem_cons.mpr ⟨hd, List.forall_mem_cons.mpr ⟨by decide, hrest⟩⟩
  case sign =>
    split
    · simp [isNumeral]
    · split <;> simp [isNumeral]

private theorem isNumeral_magnitude (index : Nat) :
    ∀ c ∈ layout.magnitude index, isNumeral c = true := by
  rw [magnitude]
  split
  · exact isNumeral_positional (by simp [isNumeral]) 0
  · have hdigits (cs : List Char) (h : ∀ c ∈ cs, isNumeral c = true) :
        ∀ c ∈ (cs.reverse.dropWhile (· == '0')).reverse, isNumeral c = true := by
      intro c hc
      exact h c (List.mem_reverse.mp (List.dropWhile_subset _ (List.mem_reverse.mp hc)))
    have hds (n : Nat) := hdigits (digits n) fun _ => isNumeral_of_mem_toDigits
    dsimp only
    split
    · exact isNumeral_positional (hds _) _
    · exact isNumeral_scientific (hds _) _

theorem isNumeral_of_mem_finite {negative : Bool} {index : Nat} {c : Char}
    (h : c ∈ (layout.finite negative index).toList) : isNumeral c = true := by
  rw [finite, String.toList_ofList, List.mem_append] at h
  rcases h with h | h
  · cases negative with
    | false => cases h
    | true =>
      rw [List.mem_singleton.mp h]
      decide
  · exact isNumeral_magnitude index c h

private theorem point_mem_positional (h : layout.keepsFraction = true) (k : Int) :
    '.' ∈ layout.positional ds k := by
  rw [positional, h]
  split
  · simp
  · dsimp only
    split <;> simp

/-- A layout that keeps fractions writes no magnitude with digits alone. -/
theorem exists_mark (h : layout.keepsFraction = true) (index : Nat) :
    ∃ c ∈ layout.magnitude index, c.isDigit = false := by
  rw [magnitude]
  split
  · exact ⟨'.', point_mem_positional h 0, rfl⟩
  · dsimp only
    split
    · exact ⟨'.', point_mem_positional h _, rfl⟩
    · exact ⟨'e', List.mem_append_right _ List.mem_cons_self, rfl⟩

end Layout
end ManifestDiff

namespace ManifestDiff.Numeral

theorem value_append (radix before : Nat) (ds es : List Char) :
    value radix before (ds ++ es) = value radix (value radix before ds) es := by
  simp only [value, List.foldl_append]

theorem digitValue_of_isDigit {c : Char} (h : c.isDigit = true) :
    digitValue c = c.toNat - 48 ∧ c.toNat - 48 < 10 := by
  have hdigit : ('0' ≤ c && c ≤ '9') = true := h
  refine ⟨if_pos hdigit, ?_⟩
  simp only [Char.isDigit, Bool.and_eq_true, decide_eq_true_eq, UInt32.le_iff_toNat_le] at h
  have hnine : c.val.toNat ≤ 57 := h.2
  change c.val.toNat - 48 < 10
  omega

theorem value_ten {ds : List Char} (h : ∀ d ∈ ds, d.isDigit = true) (before : Nat) :
    value 10 before ds = Nat.ofDigitChars 10 ds before := by
  rw [value, Nat.ofDigitChars]
  apply List.foldl_ext
  intro n d hd
  rw [(digitValue_of_isDigit (h d hd)).1, Nat.mul_comm]
  rfl

theorem isDigit_of_mem_toDigits {n : Nat} {d : Char} (h : d ∈ Nat.toDigits 10 n) :
    d.isDigit = true :=
  Nat.isDigit_of_mem_toDigits (by decide) (by decide) h

theorem exists_cons_toDigits (n : Nat) :
    ∃ d ds, Nat.toDigits 10 n = d :: ds ∧ d.isDigit = true := by
  cases hdigits : Nat.toDigits 10 n with
  | nil => exact absurd hdigits Nat.toDigits_ne_nil
  | cons d ds => exact ⟨d, ds, rfl, isDigit_of_mem_toDigits (hdigits ▸ List.mem_cons_self)⟩

theorem ne_of_isDigit {c d : Char} (hd : d.isDigit = true) (hc : c.isDigit = false) : d ≠ c := by
  rintro rfl
  rw [hc] at hd
  cases hd

theorem sign_cons {d : Char} (h : d.isDigit = true) (ds : List Char) :
    sign (d :: ds) = (false, d :: ds) := by
  rw [sign.eq_def]
  split
  next heq => cases heq; cases h
  next heq => cases heq; cases h
  next => rfl

theorem value_toDigits (n : Nat) : value 10 0 (Nat.toDigits 10 n) = n := by
  rw [value_ten fun _ => isDigit_of_mem_toDigits, Nat.ofDigitChars_ten_toDigits]

theorem toDigits_inj {m n : Nat} (h : Nat.toDigits 10 m = Nat.toDigits 10 n) : m = n := by
  rw [← value_toDigits m, h, value_toDigits]

theorem sign_toDigits (n : Nat) : sign (Nat.toDigits 10 n) = (false, Nat.toDigits 10 n) := by
  obtain ⟨d, ds, hdigits, hd⟩ := exists_cons_toDigits n
  rw [hdigits, sign_cons hd]

theorem natural?_toDigits (n : Nat) : natural? 10 (Nat.toDigits 10 n) = some n := by
  have hall : (Nat.toDigits 10 n).all (digitValue · < 10) = true := by
    rw [List.all_eq_true]
    intro d hd
    obtain ⟨hvalue, hten⟩ := digitValue_of_isDigit (isDigit_of_mem_toDigits hd)
    simpa only [hvalue, decide_eq_true_eq] using hten
  have hsome : (Nat.toDigits 10 n).isEmpty = false := by
    simpa only [List.isEmpty_eq_false_iff] using Nat.toDigits_ne_nil
  rw [natural?, hall, hsome, value_toDigits]
  rfl

theorem toList_toString_natural (n : Nat) : (toString n).toList = Nat.toDigits 10 n := by
  rw [Nat.toString_eq_ofList_toDigits, String.toList_ofList]

theorem toList_toString_negSucc (n : Nat) :
    (toString (Int.negSucc n)).toList = '-' :: Nat.toDigits 10 (n + 1) := by
  change ("-" ++ toString (n + 1)).toList = _
  rw [String.toList_append, toList_toString_natural]
  rfl

private theorem digitChar_ne_zero : ∀ n < 10, 0 < n → n.digitChar ≠ '0' := by decide

theorem head?_toDigits_ne_zero {n : Nat} (h : 0 < n) : (Nat.toDigits 10 n).head? ≠ some '0' := by
  induction n using Nat.strongRecOn with
  | ind n ih =>
    by_cases hten : n < 10
    · rw [Nat.toDigits_of_lt_base hten]
      simpa using digitChar_ne_zero n hten h
    · have hhead := ih (n / 10) (by omega) (by omega)
      rw [Nat.toDigits_of_base_le (by decide) (by omega),
        List.head?_append_of_ne_nil _ Nat.toDigits_ne_nil]
      exact hhead

end ManifestDiff.Numeral
