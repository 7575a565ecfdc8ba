import ManifestDiff.Json.Value
import ManifestDiff.Proofs.Number.Numeral
/-!
# JSON text is printable

The compact text of a JSON value has no control character: numbers are made of digits and marks,
and a string has its control characters escaped. So in its UTF-8 form no byte is below the blank,
and a line feed never stands inside a value.
-/
namespace ManifestDiff

def Printable (cs : List Char) : Prop := ∀ c ∈ cs, 32 ≤ c.toNat

instance (cs : List Char) : Decidable (Printable cs) :=
  decidable_of_iff (cs.all fun c => 32 ≤ c.toNat) (by simp [Printable])

namespace Printable

theorem append {cs ds : List Char} (hc : Printable cs) (hd : Printable ds) :
    Printable (cs ++ ds) :=
  List.forall_mem_append.mpr ⟨hc, hd⟩

theorem cons {c : Char} {cs : List Char} (hc : 32 ≤ c.toNat) (hcs : Printable cs) :
    Printable (c :: cs) :=
  List.forall_mem_cons.mpr ⟨hc, hcs⟩

theorem toList_append {s t : String} (hs : Printable s.toList) (ht : Printable t.toList) :
    Printable (s ++ t).toList := by
  rw [String.toList_append]
  exact hs.append ht

theorem lineFeed_not_mem {cs : List Char} (h : Printable cs) : '\n' ∉ cs :=
  fun hmem => absurd (h _ hmem) (by decide)

end Printable

theorem printable_of_isNumeral {c : Char} (h : isNumeral c = true) : 32 ≤ c.toNat := by
  rw [isNumeral, Bool.or_eq_true, decide_eq_true_eq] at h
  rcases h with h | h
  · have hzero : '0'.val ≤ c.val := of_decide_eq_true (Bool.and_eq_true_iff.mp h).1
    exact Nat.le_trans (by decide) (UInt32.le_iff_toNat_le.mp hzero)
  · simp only [List.mem_cons, List.not_mem_nil, or_false] at h
    rcases h with rfl | rfl | rfl | rfl <;> decide

theorem printable_toDigits (n : Nat) : Printable (Nat.toDigits 10 n) :=
  fun _ hc => printable_of_isNumeral (isNumeral_of_mem_toDigits hc)

theorem printable_natural (n : Nat) : Printable (toString n).toList := by
  rw [Nat.toString_eq_ofList_toDigits, String.toList_ofList]
  exact printable_toDigits n

theorem printable_integer (i : Int) : Printable (toString i).toList := by
  cases i with
  | ofNat n => exact printable_natural n
  | negSucc n => exact Printable.toList_append (by decide) (printable_natural (n + 1))

theorem Layout.printable_finite (layout : Layout) (negative : Bool) (index : Nat) :
    Printable (layout.finite negative index).toList :=
  fun _ hc => printable_of_isNumeral (isNumeral_of_mem_finite hc)

namespace Json

private theorem printable_hexDigit : ∀ n < 16, 32 ≤ (hexDigit n).toNat := by decide

private theorem printable_escape (c : Char) : Printable (escape c) := by
  rw [escape]
  -- the characters with a short escape
  iterate 7
    split
    · decide
  split
  next hcontrol =>
    have hc : c.toNat < 32 := UInt32.lt_iff_toNat_lt.mp hcontrol
    have hhigh := printable_hexDigit (c.toNat / 16) (by omega)
    have hlow := printable_hexDigit (c.toNat % 16) (by omega)
    exact .cons (by decide) (.cons (by decide) (.cons (by decide) (.cons (by decide)
      (.cons hhigh (.cons hlow (by decide))))))
  next hcontrol =>
    have hc : 32 ≤ c.toNat := UInt32.le_iff_toNat_le.mp (UInt32.not_lt.mp hcontrol)
    exact .cons hc (by decide)

theorem printable_quote (s : String) : Printable (quote s).toList := by
  rw [quote, String.toList_ofList]
  refine .cons (by decide) (Printable.append ?_ (by decide))
  intro d hd
  obtain ⟨c, _, hd⟩ := List.mem_flatMap.mp hd
  exact printable_escape c d hd

theorem printable_numberText (n : Number) : Printable (numberText n).toList := by
  match n with
  | .natural n => exact printable_natural _
  | .negative i => exact printable_integer _
  | .float (.finite negative index) => exact layout.printable_finite negative index
  | .float .nan => decide
  | .float (.infinite negative) => cases negative <;> decide

namespace Value

mutual

theorem printable_text : ∀ value : Value, Printable value.text.toList
  | .null => by decide
  | .bool b => by cases b <;> decide
  | .number n => printable_numberText n
  | .string s => printable_quote s
  | .array items => by
    rw [text]
    exact ((Printable.toList_append (by decide) (printable_textItems items))).toList_append
      (by decide)
  | .object members => by
    rw [text]
    exact (Printable.toList_append (by decide) (printable_textMembers members)).toList_append
      (by decide)

private theorem printable_textItems : ∀ items : List Value, Printable (textItems items).toList
  | [] => by decide
  | [v] => printable_text v
  | v :: w :: rest => by
    rw [textItems]
    exact ((printable_text v).toList_append (by decide)).toList_append
      (printable_textItems (w :: rest))
    · simp

private theorem printable_textMembers :
    ∀ members : List (String × Value), Printable (textMembers members).toList
  | [] => by decide
  | [(k, v)] => by
    rw [textMembers]
    exact ((printable_quote k).toList_append (by decide)).toList_append (printable_text v)
  | (k, v) :: w :: rest => by
    rw [textMembers]
    have hcolon : Printable ":".toList := by decide
    have hentry := ((printable_quote k).toList_append hcolon).toList_append (printable_text v)
    exact (hentry.toList_append (by decide)).toList_append (printable_textMembers (w :: rest))
    · simp

end

end Value
end Json

private theorem le_of_mem_utf8EncodeChar {c : Char} (hc : 32 ≤ c.toNat) {byte : UInt8}
    (h : byte ∈ String.utf8EncodeChar c) : 32 ≤ byte := by
  -- a byte of a longer form has its high bit set
  have hhigh (n m : Nat) (hm : 128 ≤ m ∧ n + m < 256) : 32 ≤ UInt8.ofNat (n + m) := by
    rw [UInt8.le_iff_toNat_le, UInt8.toNat_ofNat_of_lt' hm.2]
    exact Nat.le_trans (by decide) (Nat.le_trans hm.1 (Nat.le_add_left m n))
  rw [String.utf8EncodeChar.eq_1] at h
  split at h
  · have hbyte : c.val.toNat < 256 := by omega
    rw [List.mem_singleton.mp h, UInt8.le_iff_toNat_le, UInt8.toNat_ofNat_of_lt' hbyte]
    exact hc
  · split at h
    · simp only [List.mem_cons, List.not_mem_nil, or_false] at h
      rcases h with rfl | rfl <;> exact hhigh _ _ (by omega)
    · split at h
      · simp only [List.mem_cons, List.not_mem_nil, or_false] at h
        rcases h with rfl | rfl | rfl <;> exact hhigh _ _ (by omega)
      · simp only [List.mem_cons, List.not_mem_nil, or_false] at h
        rcases h with rfl | rfl | rfl | rfl <;> exact hhigh _ _ (by omega)

theorem le_of_mem_toUTF8 {s : String} (hs : Printable s.toList) {byte : UInt8}
    (h : byte ∈ s.toUTF8.data) : 32 ≤ byte := by
  rw [String.toUTF8_eq_toByteArray, ← String.utf8Encode_toList, List.utf8Encode.eq_1,
    List.data_toByteArray, List.mem_toArray] at h
  obtain ⟨c, hc, hbyte⟩ := List.mem_flatMap.mp h
  exact le_of_mem_utf8EncodeChar (hs c hc) hbyte

end ManifestDiff
