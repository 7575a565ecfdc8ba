import ManifestDiff.Number.Layout
import ManifestDiff.Proofs.Number.Numeral
import ManifestDiff.Proofs.Number.Shortest
import ManifestDiff.Proofs.Text
import Mathlib.Data.List.TakeWhile
/-!
# Written decimals

The text of a magnitude spells the value of its shortest decimal, in whatever layout it is written.
So the text of a finite float tells the float.
-/
namespace ManifestDiff

namespace Numeral

def places : List Char → List Char × List Char
  | '.' :: rest => (rest.takeWhile isDigit, rest.dropWhile isDigit)
  | rest => ([], rest)

def parts? (cs : List Char) : Option (Nat × Int) :=
  let whole := cs.takeWhile isDigit
  let (places, tail) := places (cs.dropWhile isDigit)
  if whole.isEmpty && places.isEmpty then none
  else (exponent? tail).map fun exponent =>
    (value 10 (value 10 0 whole) places, exponent - places.length)

theorem sign_of_parts? {cs : List Char} {parts : Nat × Int} (h : parts? cs = some parts) :
    sign cs = (false, cs) := by
  rw [sign.eq_def]
  split
  next => cases h
  next => cases h
  next => rfl

theorem head?_of_exponent? {tail : List Char} {x : Int} (h : exponent? tail = some x) :
    ∀ c ∈ tail.head?, c = 'e' ∨ c = 'E' := by
  cases tail with
  | nil => simp
  | cons c rest =>
    by_contra hc
    rw [exponent?, if_neg (by simpa using hc)] at h
    cases h

variable {whole places tail : List Char} {x : Int}

private theorem not_isDigit_of_exponent? (h : exponent? tail = some x) :
    ∀ c ∈ tail.head?, isDigit c = false := by
  intro c hc
  rcases head?_of_exponent? h c hc with rfl | rfl <;> decide

theorem parts?_whole (hwhole : ∀ d ∈ whole, isDigit d = true) (hne : whole ≠ [])
    (hx : exponent? tail = some x) : parts? (whole ++ tail) = some (value 10 0 whole, x) := by
  obtain ⟨htake, hdrop⟩ := span_append_of_stop hwhole (not_isDigit_of_exponent? hx)
  have hempty : whole.isEmpty = false := List.isEmpty_eq_false_iff.mpr hne
  have hplaces : places tail = ([], tail) := by
    cases tail with
    | nil => rfl
    | cons c rest => rcases head?_of_exponent? hx c rfl with rfl | rfl <;> rfl
  simp [parts?, htake, hdrop, hplaces, hempty, hx, value]

theorem parts?_point (hwhole : ∀ d ∈ whole, isDigit d = true) (hne : whole ≠ [])
    (hplaces : ∀ d ∈ places, isDigit d = true) (hx : exponent? tail = some x) :
    parts? (whole ++ '.' :: (places ++ tail)) =
      some (value 10 0 (whole ++ places), x - places.length) := by
  have hpoint (rest : List Char) : ∀ c ∈ ('.' :: rest).head?, isDigit c = false := by
    rintro c ⟨⟩
    decide
  obtain ⟨htake, hdrop⟩ := span_append_of_stop hwhole (hpoint (places ++ tail))
  obtain ⟨htake', hdrop'⟩ := span_append_of_stop hplaces (not_isDigit_of_exponent? hx)
  have hempty : whole.isEmpty = false := List.isEmpty_eq_false_iff.mpr hne
  simp [parts?, htake, hdrop, Numeral.places, htake', hdrop', hempty, hx, value_append]

theorem value_zeros (before n : Nat) :
    value 10 before (List.replicate n '0') = before * 10 ^ n := by
  induction n generalizing before with
  | zero => rw [Nat.pow_zero, Nat.mul_one]; rfl
  | succ n ih =>
    change value 10 (before * 10 + 0) (List.replicate n '0') = _
    rw [ih, Nat.add_zero, Nat.mul_assoc, Nat.pow_succ']

theorem isDigit_of_mem_zeros {n : Nat} {d : Char} (h : d ∈ List.replicate n '0') :
    isDigit d = true := by
  rw [List.eq_of_mem_replicate h]
  decide

end Numeral

namespace Layout

open Numeral

variable {layout : Layout} {ds : List Char}

def Spells (cs : List Char) (x : ℚ) : Prop :=
  ∃ c e, parts? cs = some (c, e) ∧ (c : ℚ) * 10 ^ e = x

theorem Spells.unique {cs : List Char} {x y : ℚ} (hx : Spells cs x) (hy : Spells cs y) : x = y := by
  obtain ⟨c, e, hparts, rfl⟩ := hx
  obtain ⟨c', e', hparts', rfl⟩ := hy
  rw [hparts] at hparts'
  cases hparts'
  rfl

private theorem exponent?_nil : exponent? [] = some 0 := rfl

private theorem spells_whole (hds : ∀ d ∈ ds, isDigit d = true) (hne : ds ≠ []) {k : Int}
    (hk : 0 ≤ k) (fraction : Bool) :
    Spells (ds ++ List.replicate k.toNat '0' ++ if fraction then ['.', '0'] else [])
      (value 10 0 ds * 10 ^ k) := by
  have hwhole : ∀ d ∈ ds ++ List.replicate k.toNat '0', isDigit d = true :=
    List.forall_mem_append.mpr ⟨hds, fun _ => isDigit_of_mem_zeros⟩
  have hsome : ds ++ List.replicate k.toNat '0' ≠ [] := by simp [hne]
  have hvalue : (value 10 0 (ds ++ List.replicate k.toNat '0') : ℚ) = value 10 0 ds * 10 ^ k := by
    rw [value_append, value_zeros, Nat.cast_mul]
    congr 1
    exact Shortest.cast_pow_toNat hk 10
  cases fraction with
  | false =>
    refine ⟨_, _, parts?_whole hwhole hsome exponent?_nil, ?_⟩
    rw [hvalue, zpow_zero, mul_one]
  | true =>
    have hplaces : ∀ d ∈ ['0'], isDigit d = true := List.forall_mem_singleton.mpr (by decide)
    refine ⟨_, _, parts?_point hwhole hsome hplaces exponent?_nil, ?_⟩
    have hzero : value 10 0 (ds ++ List.replicate k.toNat '0' ++ ['0']) =
        value 10 0 (ds ++ List.replicate k.toNat '0') * 10 := by
      rw [value_append]
      rfl
    rw [hzero, Nat.cast_mul, hvalue]
    norm_num [mul_assoc]

private theorem spells_inside (hds : ∀ d ∈ ds, isDigit d = true) {n : Nat} (hn : n < ds.length) :
    Spells (ds.take (ds.length - n) ++ '.' :: ds.drop (ds.length - n))
      (value 10 0 ds * 10 ^ (-n : Int)) := by
  have hwhole : ∀ d ∈ ds.take (ds.length - n), isDigit d = true :=
    fun d hd => hds d (List.mem_of_mem_take hd)
  have hplaces : ∀ d ∈ ds.drop (ds.length - n), isDigit d = true :=
    fun d hd => hds d (List.mem_of_mem_drop hd)
  have hsome : ds.take (ds.length - n) ≠ [] := by
    rw [← List.length_pos_iff, List.length_take]
    omega
  have hparts := parts?_point hwhole hsome hplaces exponent?_nil
  rw [List.append_nil, List.take_append_drop] at hparts
  refine ⟨_, _, hparts, ?_⟩
  congr 2
  rw [List.length_drop]
  omega

private theorem spells_below (hds : ∀ d ∈ ds, isDigit d = true) {n : Nat} (hn : ds.length ≤ n) :
    Spells ('0' :: '.' :: (List.replicate (n - ds.length) '0' ++ ds))
      (value 10 0 ds * 10 ^ (-n : Int)) := by
  have hplaces : ∀ d ∈ List.replicate (n - ds.length) '0' ++ ds, isDigit d = true :=
    List.forall_mem_append.mpr ⟨fun _ => isDigit_of_mem_zeros, hds⟩
  have hzero : ∀ d ∈ ['0'], isDigit d = true := List.forall_mem_singleton.mpr (by decide)
  have hparts := parts?_point hzero (by decide) hplaces exponent?_nil
  rw [List.append_nil] at hparts
  refine ⟨_, _, hparts, ?_⟩
  have hvalue : value 10 0 (['0'] ++ (List.replicate (n - ds.length) '0' ++ ds)) =
      value 10 0 ds := by
    rw [value_append, value_append, value_zeros]
    simp [value, digitValue]
  rw [hvalue]
  congr 2
  rw [List.length_append, List.length_replicate]
  omega

theorem spells_positional (hds : ∀ d ∈ ds, isDigit d = true) (hne : ds ≠ []) (k : Int) :
    Spells (layout.positional ds k) (value 10 0 ds * 10 ^ k) := by
  rw [positional]
  split
  next hk => exact spells_whole hds hne hk _
  next hk =>
    have hplaces : k = -((-k).toNat : Int) := by omega
    dsimp only
    split
    next hinside =>
      have hspells := spells_inside hds hinside
      rwa [← hplaces] at hspells
    next hbelow =>
      have hspells := spells_below hds (Nat.not_lt.mp hbelow)
      rwa [← hplaces] at hspells

theorem exponent?_scientific (signed : Bool) (x : Int) :
    exponent? ('e' :: ((if x < 0 then ['-'] else if signed then ['+'] else []) ++
      digits x.natAbs)) = some x := by
  have hsign : sign ((if x < 0 then ['-'] else if signed then ['+'] else []) ++ digits x.natAbs) =
      (decide (x < 0), Nat.toDigits 10 x.natAbs) := by
    by_cases hneg : x < 0
    · simp only [hneg, if_true, decide_true]
      rfl
    · cases signed with
      | true =>
        simp only [hneg, if_false, if_true, decide_false]
        rfl
      | false =>
        simp only [hneg, if_false, Bool.false_eq_true, List.nil_append, decide_false]
        exact sign_toDigits x.natAbs
  rw [exponent?, if_pos (by decide), hsign]
  have habs : (if decide (x < 0) = true then -(x.natAbs : Int) else x.natAbs) = x := by
    by_cases hneg : x < 0
    · rw [if_pos (decide_eq_true hneg)]
      omega
    · rw [if_neg (by simp [hneg])]
      omega
  simp only [natural?_toDigits]
  exact congrArg some habs

theorem spells_scientific (hds : ∀ d ∈ ds, isDigit d = true) (hne : ds ≠ []) (x : Int) :
    Spells (layout.scientific ds x) (value 10 0 ds * 10 ^ (x + 1 - ds.length)) := by
  have hexponent := exponent?_scientific layout.signsExponent x
  match ds with
  | [] => exact absurd rfl hne
  | [d] =>
    refine ⟨_, _, parts?_whole hds hne hexponent, ?_⟩
    simp
  | d :: e :: rest =>
    obtain ⟨hd, hrest⟩ := List.forall_mem_cons.mp hds
    have hwhole : ∀ c ∈ [d], isDigit c = true := List.forall_mem_singleton.mpr hd
    refine ⟨_, _, parts?_point hwhole (by simp) hrest hexponent, ?_⟩
    congr 2
    simp

private def trimmed (ds : List Char) : List Char := (ds.reverse.dropWhile (· == '0')).reverse

private theorem eq_trimmed_append (ds : List Char) :
    ds = trimmed ds ++ List.replicate (ds.length - (trimmed ds).length) '0' := by
  have hsplit : ds = trimmed ds ++ (ds.reverse.takeWhile (· == '0')).reverse := by
    rw [trimmed, ← List.reverse_append, List.takeWhile_append_dropWhile, List.reverse_reverse]
  have hzeros : (ds.reverse.takeWhile (· == '0')).reverse =
      List.replicate (ds.length - (trimmed ds).length) '0' := by
    rw [List.eq_replicate_iff]
    constructor
    · have hlength := congrArg List.length hsplit
      rw [List.length_append] at hlength
      omega
    · intro d hd
      have hzero := List.mem_takeWhile_imp (List.mem_reverse.mp hd)
      exact beq_iff_eq.mp hzero
  rw [← hzeros]
  exact hsplit

private theorem value_trimmed (ds : List Char) :
    value 10 0 ds = value 10 0 (trimmed ds) * 10 ^ (ds.length - (trimmed ds).length) := by
  rw [← value_zeros, ← value_append, ← eq_trimmed_append]

private theorem value_eq_trimmed {d : Shortest.Decimal} {ds : List Char}
    (h : digits d.coefficient = ds) :
    d.value = value 10 0 (trimmed ds) * 10 ^ (d.exponent + (ds.length - (trimmed ds).length : Nat)) := by
  have hvalue : d.coefficient = value 10 0 (trimmed ds) * 10 ^ (ds.length - (trimmed ds).length) := by
    rw [← value_trimmed, ← h, digits, value_toDigits]
  rw [Shortest.Decimal.value, hvalue, zpow_add₀ (by norm_num), zpow_natCast]
  push_cast
  ring

private theorem spells_of_ne_zero {index : Nat} (hindex : index ≠ 0)
    (hpos : (Shortest.ofIndex layout.tie index).coefficient ≠ 0) :
    Spells (layout.magnitude index) (Shortest.ofIndex layout.tie index).value := by
  rw [magnitude, if_neg hindex]
  generalize Shortest.ofIndex layout.tie index = d at hpos ⊢
  dsimp only
  generalize hdigits : digits d.coefficient = ds
  have hds : ∀ c ∈ trimmed ds, isDigit c = true := by
    intro c hc
    have hmem : c ∈ ds := eq_trimmed_append ds ▸ List.mem_append_left _ hc
    exact isDigit_of_mem_toDigits (hdigits ▸ hmem)
  have hne : trimmed ds ≠ [] := by
    intro hnil
    have hvalue := value_trimmed ds
    rw [hnil, ← hdigits, digits, value_toDigits] at hvalue
    exact hpos (hvalue.trans (Nat.zero_mul _))
  rw [value_eq_trimmed hdigits]
  split
  · exact spells_positional hds hne _
  · have hspells := @spells_scientific layout _ hds hne
      (d.exponent + (ds.length - (trimmed ds).length : Nat) + (trimmed ds).length - 1)
    rw [sub_add_cancel, add_sub_cancel_right] at hspells
    exact hspells

/-- The number that is written for the magnitude with this index. -/
def shortest (layout : Layout) : Nat → ℚ
  | 0 => 0
  | index + 1 => (Shortest.ofIndex layout.tie (index + 1)).value

/-- The text of a magnitude spells its shortest decimal. -/
theorem spells_magnitude {index : Nat} (h : index < Binary64.finiteCount) :
    Spells (layout.magnitude index) (layout.shortest index) := by
  cases index with
  | zero =>
    have hdigit : ∀ d ∈ ['0'], isDigit d = true := List.forall_mem_singleton.mpr (by decide)
    have hspells := @spells_positional layout ['0'] hdigit (by decide) 0
    have hzero : value 10 0 ['0'] = 0 := by decide
    rw [hzero, Nat.cast_zero, zero_mul] at hspells
    exact hspells
  | succ index =>
    apply spells_of_ne_zero (Nat.succ_ne_zero index)
    intro hzero
    have hpos := Shortest.value_pos layout.tie h
    rw [Shortest.Decimal.value, hzero, Nat.cast_zero, zero_mul] at hpos
    exact lt_irrefl _ hpos

theorem shortest_inj {i j : Nat} (hi : i < Binary64.finiteCount) (hj : j < Binary64.finiteCount)
    (h : layout.shortest i = layout.shortest j) : i = j := by
  cases i with
  | zero =>
    cases j with
    | zero => rfl
    | succ j => exact absurd h (Shortest.value_pos layout.tie hj).ne
  | succ i =>
    cases j with
    | zero => exact absurd h (Shortest.value_pos layout.tie hi).ne'
    | succ j => rw [Shortest.eq_of_value hi hj h]

private theorem magnitude_inj {i j : Nat} (hi : i < Binary64.finiteCount)
    (hj : j < Binary64.finiteCount) (h : layout.magnitude i = layout.magnitude j) : i = j :=
  shortest_inj hi hj ((spells_magnitude hi).unique (h ▸ spells_magnitude hj))

theorem magnitude_ne_nil {index : Nat} (h : index < Binary64.finiteCount) :
    layout.magnitude index ≠ [] := by
  intro hnil
  obtain ⟨c, e, hparts, -⟩ := @spells_magnitude layout _ h
  rw [hnil] at hparts
  cases hparts

theorem sign_finite (layout : Layout) (negative : Bool) (index : Fin Binary64.finiteCount) :
    sign (layout.finite negative index).toList = (negative, layout.magnitude index) := by
  rw [finite, String.toList_ofList]
  cases negative with
  | true => rfl
  | false =>
    obtain ⟨c, e, hparts, -⟩ := @spells_magnitude layout _ index.isLt
    exact sign_of_parts? hparts

theorem finite_inj {s t : Bool} {i j : Fin Binary64.finiteCount}
    (h : layout.finite s i = layout.finite t j) : s = t ∧ i = j := by
  have hsign := sign_finite layout s i
  rw [h, sign_finite] at hsign
  obtain ⟨rfl, hmagnitude⟩ := Prod.mk.inj hsign
  exact ⟨rfl, Fin.ext (magnitude_inj i.isLt j.isLt hmagnitude.symm)⟩

end Layout
end ManifestDiff
