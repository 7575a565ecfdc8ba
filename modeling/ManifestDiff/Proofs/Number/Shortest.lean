import ManifestDiff.Number.Layout
import ManifestDiff.Number.Numeral
import Mathlib.Algebra.Order.Field.Power
import Mathlib.Algebra.Order.Field.Rat
import Mathlib.Data.Nat.Cast.Order.Field
import Mathlib.Order.Monotone.Basic
import Mathlib.Tactic.FieldSimp
import Mathlib.Tactic.Linarith
import Mathlib.Tactic.LinearCombination
import Mathlib.Tactic.NormNum
import Mathlib.Tactic.Positivity
import Mathlib.Tactic.Ring
/-!
# Shortest decimals tell their magnitude

Neighbouring magnitudes are one power of two apart, and the points halfway between them cut the
positive rationals into intervals, one around each magnitude. No two intervals have a point in
common, not even an end, since of two neighbours only the one with an even significand has its ends.
The search ends on a grid that is finer than the interval, so it always finds a point of it, and the
decimal that is found tells the magnitude.
-/
namespace ManifestDiff.Binary64

def magnitude (index : Nat) : ℚ := significand index * 2 ^ binaryExponent index

def spacing (index : Nat) : ℚ := 2 ^ binaryExponent index

def halfway (index : Nat) : ℚ := magnitude index + spacing index / 2

theorem spacing_pos (index : Nat) : 0 < spacing index := zpow_pos (by norm_num) _

theorem significand_lt (index : Nat) : significand index < 2 * binadeSize := by
  rw [significand]
  split
  · omega
  · have := Nat.mod_lt index (y := binadeSize) (by decide)
    omega

theorem significand_mod_two (index : Nat) : significand index % 2 = index % 2 := by
  simp only [significand, binadeSize]
  split <;> omega

theorem binaryExponent_bounds {index : Nat} (h : index < finiteCount) :
    -1074 ≤ binaryExponent index ∧ binaryExponent index ≤ 971 := by
  simp only [finiteCount, binadeSize] at h
  simp only [binaryExponent, binadeSize]
  split <;> omega

/-- A magnitude is either in the same binade as the one before, or it is the first one of the next
binade. -/
theorem succ_cases (index : Nat) :
    (significand (index + 1) = significand index + 1 ∧
      binaryExponent (index + 1) = binaryExponent index ∧
      (significand (index + 1) = binadeSize → binaryExponent (index + 1) = -1074)) ∨
    (significand (index + 1) = binadeSize ∧ significand index + 1 = 2 * binadeSize ∧
      binaryExponent (index + 1) = binaryExponent index + 1 ∧
      -1074 < binaryExponent (index + 1)) := by
  simp only [significand, binaryExponent, binadeSize]
  split <;> split <;> omega

theorem magnitude_succ (index : Nat) : magnitude (index + 1) = magnitude index + spacing index := by
  rw [magnitude, magnitude, spacing]
  obtain ⟨hm, he, -⟩ | ⟨hm, hlast, he, -⟩ := succ_cases index
  · rw [hm, he]
    push_cast
    ring
  · have htwo : (significand index : ℚ) + 1 = 2 * binadeSize := by exact_mod_cast hlast
    rw [hm, he, zpow_add₀ (by norm_num), zpow_one]
    linear_combination (-(2 : ℚ) ^ binaryExponent index) * htwo

theorem halfway_pos (index : Nat) : 0 < halfway index := by
  have hmagnitude : 0 ≤ magnitude index := mul_nonneg (Nat.cast_nonneg _) (spacing_pos index).le
  have hspacing := spacing_pos index
  rw [halfway]
  linarith

theorem halfway_strictMono : StrictMono halfway := by
  apply strictMono_nat_of_lt_succ
  intro index
  have hspacing := spacing_pos index
  have hnext := spacing_pos (index + 1)
  rw [halfway, halfway, magnitude_succ]
  linarith

end ManifestDiff.Binary64

namespace ManifestDiff.Shortest

open Binary64

def Decimal.value (d : Decimal) : ℚ := d.coefficient * 10 ^ d.exponent

theorem cast_pow_toNat {k : Int} (h : 0 ≤ k) (b : Nat) :
    ((Nat.pow b k.toNat : Nat) : ℚ) = (b : ℚ) ^ k := by
  rw [Nat.pow_eq, Nat.cast_pow, ← zpow_natCast, Int.toNat_of_nonneg h]

namespace Interval

def lowEnd (i : Interval) : ℚ := i.low / i.den

def highEnd (i : Interval) : ℚ := i.high / i.den

def middle (i : Interval) : ℚ := i.value / i.den

/-- The point is inside the interval, or it is an end that belongs to it. -/
def Covers (i : Interval) (x : ℚ) : Prop :=
  i.lowEnd < x ∧ x < i.highEnd ∨ i.closed = true ∧ (x = i.lowEnd ∨ x = i.highEnd)

variable {i : Interval} {d : Nat}

theorem contains_iff (hden : 0 < i.den) : i.contains d = true ↔ i.Covers d := by
  have hpos : (0 : ℚ) < i.den := by exact_mod_cast hden
  simp only [contains, Covers, lowEnd, highEnd, Bool.or_eq_true, Bool.and_eq_true, decide_eq_true_eq,
    beq_iff_eq, div_lt_iff₀ hpos, lt_div_iff₀ hpos, eq_div_iff hpos.ne']
  norm_cast

theorem inUnitsOf_den_pos (hden : 0 < i.den) (k : Int) : 0 < (i.inUnitsOf k).den := by
  rw [inUnitsOf]
  split
  · exact hden
  · exact Nat.mul_pos hden (Nat.pow_pos (by decide))

theorem ends_inUnitsOf (i : Interval) (k : Int) :
    (i.inUnitsOf k).lowEnd = i.lowEnd / 10 ^ k ∧ (i.inUnitsOf k).highEnd = i.highEnd / 10 ^ k ∧
      (i.inUnitsOf k).middle = i.middle / 10 ^ k := by
  rw [inUnitsOf]
  split
  next hneg =>
    have hunit := cast_pow_toNat (k := -k) (by omega) 10
    have hdiv (n : Nat) : ((n * Nat.pow 10 (-k).toNat : Nat) : ℚ) / i.den = n / i.den / 10 ^ k := by
      rw [Nat.cast_mul, hunit, zpow_neg, Nat.cast_ofNat]
      ring
    exact ⟨hdiv _, hdiv _, hdiv _⟩
  next hpos =>
    have hunit := cast_pow_toNat (k := k) (by omega) 10
    have hdiv (n : Nat) : (n : ℚ) / (i.den * Nat.pow 10 k.toNat : Nat) = n / i.den / 10 ^ k := by
      rw [Nat.cast_mul, hunit, Nat.cast_ofNat, div_div]
    exact ⟨hdiv _, hdiv _, hdiv _⟩

theorem covers_inUnitsOf (k : Int) (x : ℚ) :
    (i.inUnitsOf k).Covers x ↔ i.Covers (x * 10 ^ k) := by
  have hunit : (0 : ℚ) < 10 ^ k := zpow_pos (by norm_num) k
  have hclosed : (i.inUnitsOf k).closed = i.closed := by
    rw [inUnitsOf]
    split <;> rfl
  obtain ⟨hlow, hhigh, -⟩ := i.ends_inUnitsOf k
  simp only [Covers, hlow, hhigh, hclosed, div_lt_iff₀ hunit, lt_div_iff₀ hunit,
    eq_div_iff hunit.ne']

theorem covers_of_nearest? {tie : Tie} (hden : 0 < i.den) (h : i.nearest? tie = some d) :
    i.Covers d := by
  apply (contains_iff hden).mp
  simp only [nearest?] at h
  split at h
  · cases h
  next hlow _ => cases h; exact hlow
  next _ hhigh => cases h; exact hhigh
  next hlow hhigh =>
    split at h
    · cases h; exact hlow
    · split at h
      · cases h; exact hlow
      · cases h; exact hhigh

theorem nearest?_ne_none {tie : Tie} (hden : 0 < i.den) (hlow : i.lowEnd < i.middle)
    (hhigh : i.middle + 1 < i.highEnd) : i.nearest? tie ≠ none := by
  have hpos : (0 : ℚ) < i.den := by exact_mod_cast hden
  have hcovers : i.Covers ((i.value / i.den + 1 : Nat) : ℚ) := by
    have hfloor : i.middle < (i.value / i.den + 1 : Nat) := by
      rw [middle, div_lt_iff₀ hpos]
      have hnat := Nat.lt_mul_div_succ i.value hden
      rw [Nat.mul_comm] at hnat
      exact_mod_cast hnat
    have hstep : ((i.value / i.den + 1 : Nat) : ℚ) ≤ i.middle + 1 := by
      rw [Nat.cast_add, Nat.cast_one, add_le_add_iff_right]
      exact Nat.cast_div_le
    exact .inl ⟨hlow.trans hfloor, hstep.trans_lt hhigh⟩
  have hcontains := (contains_iff hden).mpr hcovers
  simp only [nearest?, hcontains]
  cases i.contains (i.value / i.den) <;> grind

end Interval

/-- A search that finds a point at all finds a point of the interval. -/
theorem covers_search {tie : Tie} {i : Interval} (hden : 0 < i.den) {fuel : Nat} {k : Int}
    (h : ∃ n < fuel, (i.inUnitsOf (k - n)).nearest? tie ≠ none) :
    i.Covers (search tie i fuel k).value := by
  induction fuel generalizing k with
  | zero =>
    obtain ⟨n, hn, -⟩ := h
    exact absurd hn (Nat.not_lt_zero n)
  | succ fuel ih =>
    rw [search]
    split
    next d hd =>
      exact (Interval.covers_inUnitsOf k d).mp
        (Interval.covers_of_nearest? (Interval.inUnitsOf_den_pos hden k) hd)
    next hnone =>
      apply ih
      obtain ⟨n, hn, hfound⟩ := h
      cases n with
      | zero =>
        rw [Nat.cast_zero, sub_zero] at hfound
        exact absurd hnone hfound
      | succ n =>
        refine ⟨n, by omega, ?_⟩
        have hstep : k - 1 - (n : Int) = k - (n + 1 : Nat) := by omega
        rw [hstep]
        exact hfound

private def scale (e : Int) : Nat × Nat :=
  if e < 0 then (1, Nat.pow 2 (-e).toNat) else (Nat.pow 2 e.toNat, 1)

private theorem scale_pos (e : Int) : 0 < (scale e).2 := by
  rw [scale]
  split
  · exact Nat.pow_pos (by decide)
  · exact Nat.one_pos

private theorem scale_eq (e : Int) : ((scale e).1 : ℚ) / (scale e).2 = 2 ^ e := by
  rw [scale]
  split
  next hneg =>
    rw [cast_pow_toNat (by omega), zpow_neg, Nat.cast_one, Nat.cast_ofNat, one_div, inv_inv]
  next hpos =>
    rw [cast_pow_toNat (by omega), Nat.cast_one, Nat.cast_ofNat, div_one]

private theorem quarter_eq (n : Nat) (e : Int) :
    ((n * (scale e).1 : Nat) : ℚ) / (4 * (scale e).2 : Nat) = n / 4 * 2 ^ e := by
  rw [← scale_eq, Nat.cast_mul, Nat.cast_mul, Nat.cast_ofNat]
  ring

private def quartersBelow (index : Nat) : Nat :=
  if significand index == binadeSize && binaryExponent index > -1074 then 1 else 2

private theorem ofIndex_eq (index : Nat) : Interval.ofIndex index =
    ⟨(4 * significand index - quartersBelow index) * (scale (binaryExponent index)).1,
      4 * significand index * (scale (binaryExponent index)).1,
      (4 * significand index + 2) * (scale (binaryExponent index)).1,
      4 * (scale (binaryExponent index)).2, significand index % 2 == 0⟩ := rfl

theorem ofIndex_den_pos (index : Nat) : 0 < (Interval.ofIndex index).den := by
  rw [ofIndex_eq]
  exact Nat.mul_pos (by decide) (scale_pos _)

theorem middle_ofIndex (index : Nat) : (Interval.ofIndex index).middle = magnitude index := by
  rw [ofIndex_eq]
  simp only [Interval.middle, quarter_eq, magnitude]
  push_cast
  ring

theorem highEnd_ofIndex (index : Nat) : (Interval.ofIndex index).highEnd = halfway index := by
  rw [ofIndex_eq]
  simp only [Interval.highEnd, quarter_eq, halfway, magnitude, spacing]
  push_cast
  ring

theorem lowEnd_ofIndex_succ (index : Nat) :
    (Interval.ofIndex (index + 1)).lowEnd = halfway index := by
  rw [ofIndex_eq]
  simp only [Interval.lowEnd, quarter_eq, halfway, magnitude, spacing]
  obtain ⟨hm, he, hfirst⟩ | ⟨hm, hlast, he, hnormal⟩ := succ_cases index
  · have hbelow : quartersBelow (index + 1) = 2 := by
      rw [quartersBelow, if_neg]
      simp only [Bool.and_eq_true, beq_iff_eq, decide_eq_true_eq, not_and]
      intro heq
      rw [hfirst heq]
      decide
    have hquarters : 4 * (significand index + 1) - 2 = 4 * significand index + 2 := by omega
    rw [hm, he, hbelow, hquarters]
    push_cast
    ring
  · have hbelow : quartersBelow (index + 1) = 1 := by
      rw [quartersBelow, hm, if_pos (by simp [hnormal])]
    have hquarters : 4 * binadeSize - 1 = 2 * significand index + 1 := by omega
    rw [hm, he, hbelow, hquarters, zpow_add₀ (by norm_num), zpow_one]
    push_cast
    ring

theorem Interval.Covers.closed_of_end {i : Interval} {x : ℚ} (h : i.Covers x)
    (hend : x = i.lowEnd ∨ x = i.highEnd) : i.closed = true := by
  rcases h with ⟨hlow, hhigh⟩ | ⟨hclosed, -⟩
  · rcases hend with rfl | rfl
    · exact absurd hlow (lt_irrefl _)
    · exact absurd hhigh (lt_irrefl _)
  · exact hclosed

theorem halfway_le_of_covers {index : Nat} {x : ℚ}
    (h : (Interval.ofIndex (index + 1)).Covers x) :
    halfway index ≤ x ∧ x ≤ halfway (index + 1) := by
  have hends : halfway index < halfway (index + 1) := halfway_strictMono (Nat.lt_succ_self index)
  rw [Interval.Covers, lowEnd_ofIndex_succ, highEnd_ofIndex] at h
  rcases h with ⟨hlow, hhigh⟩ | ⟨-, rfl | rfl⟩
  · exact ⟨hlow.le, hhigh.le⟩
  · exact ⟨le_rfl, hends.le⟩
  · exact ⟨hends.le, le_rfl⟩

/-- No two rounding intervals have a point in common. -/
theorem le_of_covers {i j : Nat} {x : ℚ} (hi : (Interval.ofIndex (i + 1)).Covers x)
    (hj : (Interval.ofIndex (j + 1)).Covers x) : i ≤ j := by
  by_contra hlt
  -- only neighbours have an end in common, and it belongs to one of them at most
  have hends : halfway (j + 1) ≤ halfway i := halfway_strictMono.monotone (by omega)
  have hlow := (halfway_le_of_covers hi).1
  have hhigh := (halfway_le_of_covers hj).2
  have hneighbours : j + 1 = i :=
    halfway_strictMono.injective (le_antisymm hends (hlow.trans hhigh))
  have hclosed (index : Nat) : (Interval.ofIndex index).closed = true ↔ index % 2 = 0 := by
    rw [ofIndex_eq, significand_mod_two, beq_iff_eq]
  have heven := (hclosed (i + 1)).mp (hi.closed_of_end (.inl (by
    rw [lowEnd_ofIndex_succ]
    exact le_antisymm (hhigh.trans hends) hlow)))
  have hodd := (hclosed (j + 1)).mp (hj.closed_of_end (.inr (by
    rw [highEnd_ofIndex]
    exact le_antisymm hhigh (hends.trans hlow))))
  omega

theorem ten_zpow_lt_two_zpow {n s : Int} (hnat : 10 * n < 3 * s) (hneg : 33 * n < 10 * s) :
    (10 : ℚ) ^ n < 2 ^ s := by
  have htwo : (0 : ℚ) ≤ 2 ^ s := by positivity
  obtain ⟨m, rfl | rfl⟩ := n.eq_nat_or_neg
  · -- ten to the third is below two to the tenth
    apply lt_of_pow_lt_pow_left₀ 3 htwo
    calc ((10 : ℚ) ^ (m : Int)) ^ 3
      _ = (10 ^ 3) ^ m := by rw [zpow_natCast, ← pow_mul, ← pow_mul, Nat.mul_comm]
      _ ≤ (2 ^ 10) ^ m := pow_le_pow_left₀ (by norm_num) (by norm_num) m
      _ = 2 ^ (10 * (m : Int)) := by rw [zpow_mul, zpow_natCast]; rfl
      _ < 2 ^ (s * 3) := zpow_lt_zpow_right₀ (by norm_num) (by omega)
      _ = (2 ^ s) ^ 3 := by rw [zpow_mul]; rfl
  · -- ten to the tenth is above two to the thirty-third
    apply lt_of_pow_lt_pow_left₀ 10 htwo
    calc ((10 : ℚ) ^ (-(m : Int))) ^ 10
      _ = ((10 ^ 10) ^ m)⁻¹ := by
        rw [zpow_neg, zpow_natCast, inv_pow, ← pow_mul, ← pow_mul, Nat.mul_comm]
      _ ≤ ((2 ^ 33) ^ m)⁻¹ :=
        inv_anti₀ (by positivity) (pow_le_pow_left₀ (by norm_num) (by norm_num) m)
      _ = 2 ^ (33 * -(m : Int)) := by rw [zpow_mul, zpow_neg, zpow_natCast]; rfl
      _ < 2 ^ (s * 10) := zpow_lt_zpow_right₀ (by norm_num) (by omega)
      _ = (2 ^ s) ^ 10 := by rw [zpow_mul]; rfl

theorem lastUnit_lt {index : Nat} (h : index < finiteCount) :
    (10 : ℚ) ^ ((binaryExponent index + (significand index).log2 + 2) * 30103 / 100000 + 1 - 23) <
      spacing index / 2 := by
  have hlog : (significand index).log2 ≤ 52 := by
    have hlt : significand index < 2 ^ 53 := significand_lt index
    by_cases hzero : significand index = 0
    · rw [hzero]
      decide
    · have := (Nat.log2_lt hzero).mpr hlt
      omega
  obtain ⟨hmin, hmax⟩ := binaryExponent_bounds h
  have hhalf : spacing index / 2 = 2 ^ (binaryExponent index - 1) := by
    rw [spacing, zpow_sub₀ (by norm_num), zpow_one]
  rw [hhalf]
  apply ten_zpow_lt_two_zpow <;> omega

theorem covers_ofIndex (tie : Tie) {index : Nat} (h : index + 1 < finiteCount) :
    (Interval.ofIndex (index + 1)).Covers (ofIndex tie (index + 1)).value := by
  have hden := ofIndex_den_pos (index + 1)
  apply covers_search hden
  refine ⟨23, by decide, ?_⟩
  generalize hk : (_ - (23 : Nat) : Int) = k
  have hunit : (0 : ℚ) < 10 ^ k := zpow_pos (by norm_num) k
  have hlast : (10 : ℚ) ^ k < spacing (index + 1) / 2 := hk ▸ lastUnit_lt h
  obtain ⟨hlow, hhigh, hmiddle⟩ := (Interval.ofIndex (index + 1)).ends_inUnitsOf k
  rw [lowEnd_ofIndex_succ] at hlow
  rw [highEnd_ofIndex] at hhigh
  rw [middle_ofIndex] at hmiddle
  apply Interval.nearest?_ne_none (Interval.inUnitsOf_den_pos hden _)
  · have hspacing := spacing_pos index
    rw [hlow, hmiddle, div_lt_div_iff_of_pos_right hunit, halfway, magnitude_succ]
    linarith
  · rw [hmiddle, hhigh, div_add_one hunit.ne', div_lt_div_iff_of_pos_right hunit, halfway]
    linarith

theorem value_pos (tie : Tie) {index : Nat} (h : index + 1 < finiteCount) :
    0 < (ofIndex tie (index + 1)).value :=
  (halfway_pos index).trans_le (halfway_le_of_covers (covers_ofIndex tie h)).1

theorem eq_of_value {tie : Tie} {i j : Nat} (hi : i + 1 < finiteCount) (hj : j + 1 < finiteCount)
    (h : (ofIndex tie (i + 1)).value = (ofIndex tie (j + 1)).value) : i = j := by
  have hcovers := covers_ofIndex tie hi
  rw [h] at hcovers
  exact Nat.le_antisymm (le_of_covers hcovers (covers_ofIndex tie hj))
    (le_of_covers (covers_ofIndex tie hj) hcovers)

end ManifestDiff.Shortest
