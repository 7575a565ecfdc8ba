import ManifestDiff.Proofs.Node.RoundTrip
import ManifestDiff.Proofs.Number.Numeral
import ManifestDiff.Proofs.Yaml.Quoted
import ManifestDiff.Yaml.Block
import ManifestDiff.Yaml.Plain
/-!
# YAML text of scalars is unambiguous

The first character of a scalar tells whether it is quoted. A plain text stands for one scalar, which
is the one that was written: an integer is read back from its decimal text, and a string is plain
only where its text would be read as text. A quoted text tells the characters between its quotes. So
scalars that are no floats, and are written on one line, are written differently.
-/
namespace ManifestDiff.Yaml.Plain

open Numeral

theorem isPaddedDigits_toDigits (n : Nat) : isPaddedDigits (Nat.toDigits 10 n) = false := by
  by_cases hzero : n = 0
  · rw [hzero]
    decide
  · have hhead := head?_toDigits_ne_zero (Nat.pos_of_ne_zero hzero)
    obtain ⟨d, ds, hdigits, -⟩ := exists_cons_toDigits n
    rw [hdigits] at hhead
    rw [isPaddedDigits.eq_def, sign_toDigits, hdigits]
    dsimp only
    split
    next heq => exact absurd (congrArg List.head? heq) hhead
    next => rfl

theorem radixDigits?_of_isDigit {ds : List Char} (h : ∀ d ∈ ds, d.isDigit = true) :
    radixDigits? ds = none := by
  have hmark (c : Char) (hc : c.isDigit = false) (rest : List Char) : ds ≠ '0' :: c :: rest := by
    rintro rfl
    exact ne_of_isDigit (h c (by simp)) hc rfl
  rw [radixDigits?.eq_def]
  split
  · exact absurd rfl (hmark 'x' rfl _)
  · exact absurd rfl (hmark 'o' rfl _)
  · exact absurd rfl (hmark 'b' rfl _)
  · rfl

theorem magnitude?_toDigits (n : Nat) : magnitude? (Nat.toDigits 10 n) = some n := by
  rw [magnitude?, radixDigits?_of_isDigit fun _ => isDigit_of_mem_toDigits,
    isPaddedDigits_toDigits]
  exact natural?_toDigits n

theorem integer?_toString (i : Int) : integer? (toString i).toList = some i := by
  cases i with
  | ofNat n =>
    change integer? (toString n).toList = some n
    obtain ⟨d, ds, hdigits, hd⟩ := exists_cons_toDigits n
    have hmagnitude := magnitude?_toDigits n
    rw [toList_toString_natural]
    rw [hdigits] at hmagnitude ⊢
    rw [integer?.eq_def]
    split
    next heq => cases heq; cases hd
    next heq => cases heq; cases hd
    next => rw [hmagnitude]; rfl
  | negSucc n =>
    rw [toList_toString_negSucc, integer?, magnitude?_toDigits]
    rfl

private theorem integer?_of_isNull {cs : List Char} (h : isNull cs = true) :
    integer? cs = none := by
  simp only [isNull, Bool.or_eq_true, beq_iff_eq] at h
  rcases h with ((rfl | rfl) | rfl) | rfl <;> decide

private theorem integer?_of_bool? {cs : List Char} {b : Bool} (h : bool? cs = some b) :
    integer? cs = none := by
  rw [bool?] at h
  split at h
  next hword =>
    simp only [Bool.or_eq_true, beq_iff_eq] at hword
    rcases hword with (rfl | rfl) | rfl <;> decide
  next =>
    split at h
    next hword =>
      simp only [Bool.or_eq_true, beq_iff_eq] at hword
      rcases hword with (rfl | rfl) | rfl <;> decide
    next => cases h

theorem read_of_integer? {cs : List Char} {i : Int} {n : Number} (h : integer? cs = some i)
    (hn : Number.ofInt? i = some n) : read cs = .number n := by
  have hsome : cs.isEmpty = false := by
    cases cs with
    | nil => cases h
    | cons c cs => rfl
  have hnull : isNull cs = false := by
    by_contra hnull
    rw [integer?_of_isNull (by simpa using hnull)] at h
    cases h
  have hbool : bool? cs = none := by
    by_contra hbool
    obtain ⟨b, hb⟩ := Option.ne_none_iff_exists'.mp hbool
    rw [integer?_of_bool? hb] at h
    cases h
  have hinteger : ofInteger? cs = some (.number n) := by
    rw [ofInteger?, h]
    simp only [hn]
  rw [read, hsome, hnull, hbool, hinteger]
  rfl

end ManifestDiff.Yaml.Plain

namespace ManifestDiff

open Yaml Yaml.Quoting

def Yaml.Style.mark? : Style → Option Char
  | .plain => none
  | .singleQuoted => some '\''
  | .doubleQuoted => some '"'
  | .literal => some '|'

theorem Yaml.Style.mark?_inj {s t : Style} (h : s.mark? = t.mark?) : s = t := by
  cases s <;> cases t <;> simp [mark?] at h ⊢

def Yaml.opening? (cs : List Char) : Option Char :=
  cs.head?.filter fun c => c == '\'' || c == '"' || c == '|'

/-- A scalar that is no string is written like a plain string. -/
def Scalar.style : Scalar → Style
  | .string s => Quoting.style s.toList
  | _ => .plain

theorem Yaml.read_of_style {cs : List Char} (h : Quoting.style cs = .plain) :
    Plain.read cs = .text ∧ hasIndicator cs = false := by
  rw [Quoting.style] at h
  by_cases hplain : (readsAsText cs && fitsPlain cs) = true
  · simp only [readsAsText, fitsPlain, Bool.and_eq_true, Bool.not_eq_true', beq_iff_eq] at hplain
    exact ⟨hplain.1.1, hplain.2.1.1.2⟩
  · split at h
    · split at h <;> cases h
    · split at h <;> cases h

theorem Yaml.opening?_of_hasIndicator {cs : List Char} (h : hasIndicator cs = false) :
    opening? cs = none := by
  cases cs with
  | nil => rfl
  | cons c cs =>
    simp only [hasIndicator, Bool.or_eq_false_iff] at h
    have hreserved : isReserved c = false := h.1.1.2
    simp [isReserved] at hreserved
    simp [opening?, hreserved]

theorem Yaml.opening?_toString (i : Int) : opening? (toString i).toList = none := by
  cases i with
  | ofNat n =>
    obtain ⟨d, ds, hdigits, hd⟩ := Numeral.exists_cons_toDigits n
    change opening? (toString n).toList = none
    rw [Numeral.toList_toString_natural, hdigits]
    simp [opening?, Numeral.ne_of_isDigit hd (show '\''.isDigit = false by decide),
      Numeral.ne_of_isDigit hd (show '"'.isDigit = false by decide),
      Numeral.ne_of_isDigit hd (show '|'.isDigit = false by decide)]
  | negSucc n =>
    rw [Numeral.toList_toString_negSucc]
    rfl

namespace Scalar

variable {a b : Scalar}

theorem opening?_yamlText (indent : Nat) (h : ∀ x, a ≠ .float x) :
    opening? (a.yamlText indent).toList = a.style.mark? := by
  cases a with
  | null => rw [yamlText]; decide
  | bool b => cases b <;> rw [yamlText] <;> decide
  | int i => exact opening?_toString _
  | uint n => exact opening?_toString n.toNat
  | float x => exact absurd rfl (h x)
  | string s =>
    rw [yamlText, String.toList_ofList, write, style]
    cases hstyle : Quoting.style s.toList with
    | plain => exact opening?_of_hasIndicator (read_of_style hstyle).2
    | _ => rfl

def ofPlain? (cs : List Char) : Option Scalar :=
  match Plain.read cs with
  | .null => some .null
  | .bool b => some (.bool b)
  | .number n => some (.ofNumber n)
  | .tooWide => none
  | .text => some (.string (String.ofList cs))

theorem ofInt?_toInt (i : Int64) : Number.ofInt? i.toInt = some (.ofInt64 i) := by
  have hsize : i.toInt < UInt64.size := Int.lt_of_le_of_lt i.toInt_le (by decide)
  rw [Number.ofInt?, Number.ofInt64]
  by_cases hneg : i < 0
  · have hlt : i.toInt < 0 := Int64.lt_iff_toInt_lt.mp hneg
    rw [if_neg (Int.not_le.mpr hlt), if_pos i.minValue_le_toInt, if_pos hneg, Int64.ofInt_toInt]
  · have hle : 0 ≤ i.toInt := Int.not_lt.mp fun h => hneg (Int64.lt_iff_toInt_lt.mpr h)
    rw [if_pos hle, if_pos hsize, if_neg hneg]

theorem ofInt?_toNat (n : UInt64) : Number.ofInt? n.toNat = some (.natural n) := by
  have hsize : (n.toNat : Int) < UInt64.size := by exact_mod_cast n.toNat_lt
  rw [Number.ofInt?, if_pos (Int.natCast_nonneg _), if_pos hsize, Int.toNat_natCast,
    UInt64.ofNat_toNat]

theorem ofPlain?_yamlText (indent : Nat) (hnormal : a.Normal)
    (hfloat : ∀ x, a ≠ .float x) (hstyle : a.style = .plain) : ofPlain? (a.yamlText indent).toList = some a := by
  cases a with
  | null => rw [yamlText]; decide
  | bool b => cases b <;> rw [yamlText] <;> decide
  | int i =>
    rw [yamlText, ofPlain?, Plain.read_of_integer? (Plain.integer?_toString _) (ofInt?_toInt i)]
    exact congrArg some (ofNumber_ofInt64 i)
  | uint n =>
    have hread : Plain.read (toString n.toNat).toList = .number (.natural n) :=
      Plain.read_of_integer? (Plain.integer?_toString n.toNat) (ofInt?_toNat n)
    rw [yamlText, ofPlain?, hread]
    exact congrArg some (ofNumber_natural hnormal)
  | float x => exact absurd rfl (hfloat x)
  | string s =>
    rw [yamlText, String.toList_ofList, write, show Quoting.style s.toList = .plain from hstyle]
    rw [ofPlain?, (read_of_style hstyle).1]
    exact congrArg (fun s => some (string s)) String.ofList_toList

def OneLine (a : Scalar) : Prop := '\n' ∉ (a.yamlText 2).toList

instance (a : Scalar) : Decidable a.OneLine := inferInstanceAs (Decidable (_ ∉ _))

theorem style_ne_literal (h : a.OneLine) : a.style ≠ .literal := by
  intro hstyle
  cases a with
  | string s =>
    apply h
    rw [yamlText, String.toList_ofList, write, show Quoting.style s.toList = .literal from hstyle]
    simp
  | _ => cases hstyle

theorem exists_string_of_style (h : a.style ≠ .plain) : ∃ s, a = .string s := by
  cases a with
  | string s => exact ⟨s, rfl⟩
  | _ => exact absurd rfl h

/-- Scalars of one line with the same text are the same. -/
theorem eq_of_yamlText (ha : a.Normal) (hb : b.Normal) (hfa : ∀ x, a ≠ .float x)
    (hfb : ∀ x, b ≠ .float x) (hla : a.OneLine) (h : a.yamlText 2 = b.yamlText 2) : a = b := by
  have hstyle : a.style = b.style := by
    apply Style.mark?_inj
    rw [← opening?_yamlText 2 hfa, h, opening?_yamlText 2 hfb]
  by_cases hplain : a.style = .plain
  · have hread := ofPlain?_yamlText 2 ha hfa hplain
    rw [h, ofPlain?_yamlText 2 hb hfb (hstyle ▸ hplain)] at hread
    exact (Option.some.inj hread).symm
  · obtain ⟨s, rfl⟩ := exists_string_of_style hplain
    obtain ⟨t, rfl⟩ := exists_string_of_style (hstyle ▸ hplain)
    have hwritten : write 2 s = write 2 t := String.ofList_inj.mp h
    rw [write_inj hstyle (style_ne_literal hla) hwritten]

end Scalar

end ManifestDiff
