import ManifestDiff.Json.Value
import ManifestDiff.Proofs.Number.Numeral
import ManifestDiff.Proofs.Number.Layout
import ManifestDiff.Proofs.Text
/-!
# JSON text is unambiguous

The compact text of a value tells what the value is, and with something behind it where the value
ends: a string ends at the first quote that is not escaped, a list at its bracket, and a number
where no further character of a numeral follows. Of the floats only finite ones have a text of their
own, and of the integers only the negative ones may be spelled with a sign.
-/
namespace ManifestDiff.Json

/-- What may stand behind a number: it does not begin with a character of a numeral. -/
def EndsNumber (rest : List Char) : Prop := ∀ c ∈ rest.head?, isNumeral c = false

namespace EndsNumber

theorem nil : EndsNumber [] := nofun

theorem cons {c : Char} (h : isNumeral c = false) (rest : List Char) : EndsNumber (c :: rest) := by
  simpa [EndsNumber] using h

end EndsNumber

theorem toList_natural (n : UInt64) :
    (numberText (.natural n)).toList = Nat.toDigits 10 n.toNat :=
  Numeral.toList_toString_natural n.toNat

theorem toList_negative {i : Int64} (h : i < 0) :
    (numberText (.negative i)).toList = '-' :: Nat.toDigits 10 i.toInt.natAbs := by
  have hi : i.toInt < 0 := Int64.lt_iff_toInt_lt.mp h
  rw [numberText]
  cases hint : i.toInt with
  | ofNat n => exact absurd (hint ▸ hi) (by simp)
  | negSucc n => exact Numeral.toList_toString_negSucc n

private theorem toDigits_ne_magnitude (n index : Nat) :
    Nat.toDigits 10 n ≠ layout.magnitude index := by
  intro h
  obtain ⟨c, hc, hdigit⟩ := @Layout.exists_mark layout rfl index
  rw [Numeral.isDigit_of_mem_toDigits (h ▸ hc)] at hdigit
  cases hdigit

def hexValue (c : Char) : Nat :=
  if c.toNat < 58 then c.toNat - 48 else c.toNat - 87

def unescape : List Char → Option (Char × List Char)
  | '\\' :: 'n' :: rest => some ('\n', rest)
  | '\\' :: 'r' :: rest => some ('\r', rest)
  | '\\' :: 't' :: rest => some ('\t', rest)
  | '\\' :: 'b' :: rest => some ('\x08', rest)
  | '\\' :: 'f' :: rest => some ('\x0c', rest)
  | '\\' :: 'u' :: '0' :: '0' :: high :: low :: rest =>
    some (Char.ofNat (16 * hexValue high + hexValue low), rest)
  | '\\' :: c :: rest => some (c, rest)
  | c :: rest => if c == '"' then none else some (c, rest)
  | [] => none

private theorem hexValue_hexDigit : ∀ n < 16, hexValue (hexDigit n) = n := by decide

theorem unescape_escape (c : Char) (rest : List Char) :
    unescape (escape c ++ rest) = some (c, rest) := by
  rw [escape]
  -- the short escapes, then the other control characters, then the rest
  split
  next h => rw [beq_iff_eq.mp h]; rfl
  next hquote =>
  split
  next h => rw [beq_iff_eq.mp h]; rfl
  next hbackslash =>
  split
  next h => rw [beq_iff_eq.mp h]; rfl
  split
  next h => rw [beq_iff_eq.mp h]; rfl
  split
  next h => rw [beq_iff_eq.mp h]; rfl
  split
  next h =>
    have hc : c = '\x08' := Char.ext (beq_iff_eq.mp h)
    rw [hc]; rfl
  split
  next h =>
    have hc : c = '\x0c' := Char.ext (beq_iff_eq.mp h)
    rw [hc]; rfl
  split
  next h =>
    have hc : c.toNat < 32 := UInt32.lt_iff_toNat_lt.mp h
    have hcode : 16 * hexValue (hexDigit (c.toNat / 16)) + hexValue (hexDigit (c.toNat % 16)) =
        c.toNat := by
      rw [hexValue_hexDigit _ (by omega), hexValue_hexDigit _ (by omega)]
      omega
    simp only [List.cons_append, List.nil_append, unescape, hcode, Char.ofNat_toNat]
  next =>
    have hplain : c ≠ '\\' := fun h => hbackslash (beq_iff_eq.mpr h)
    simp [unescape, hplain, hquote]

theorem toList_quote (s : String) :
    (quote s).toList = '"' :: (s.toList.flatMap escape ++ ['"']) := by
  rw [quote, String.toList_ofList]

theorem quote_append_inj {a b : String} {r s : List Char}
    (h : (quote a).toList ++ r = (quote b).toList ++ s) : a = b ∧ r = s := by
  simp only [toList_quote, List.cons_append, List.append_assoc, List.nil_append,
    List.cons.injEq, true_and] at h
  obtain ⟨hchars, hrest⟩ := flatMap_append_inj unescape_escape (fun _ => rfl) h
  exact ⟨String.toList_inj.mp hchars, hrest⟩

section Listing

variable {α : Type} {f : α → List Char} {P : α → Prop} {close : Char}

/-- The text of `x`, with something behind it, tells what it is and where it ends. -/
def Told (f : α → List Char) (P : α → Prop) (x : α) : Prop :=
  ∀ {y : α} {r s : List Char}, P y → EndsNumber r → EndsNumber s → f x ++ r = f y ++ s →
    x = y ∧ r = s

private def follow (f : α → List Char) (close : Char) : List α → List Char
  | [] => [close]
  | x :: xs => ',' :: (f x ++ follow f close xs)

private def listing (f : α → List Char) (close : Char) : List α → List Char
  | [] => [close]
  | x :: xs => f x ++ follow f close xs

private theorem endsNumber_follow (hclose : isNumeral close = false) (xs : List α) (r : List Char) :
    EndsNumber (follow f close xs ++ r) := by
  cases xs with
  | nil => exact .cons hclose _
  | cons x xs => exact .cons (by decide) _

private theorem follow_append_inj (hnumeral : isNumeral close = false) (hcomma : close ≠ ',')
    {xs ys : List α} (hxs : ∀ x ∈ xs, Told f P x) (hys : ∀ y ∈ ys, P y) {r s : List Char}
    (h : follow f close xs ++ r = follow f close ys ++ s) : xs = ys ∧ r = s := by
  induction xs generalizing ys with
  | nil =>
    cases ys with
    | nil => exact ⟨rfl, List.append_cancel_left h⟩
    | cons y ys => exact absurd (List.cons.inj h).1 hcomma
  | cons x xs ih =>
    cases ys with
    | nil => exact absurd (List.cons.inj h).1.symm hcomma
    | cons y ys =>
      obtain ⟨hx, hxtail⟩ := List.forall_mem_cons.mp hxs
      obtain ⟨hy, hytail⟩ := List.forall_mem_cons.mp hys
      rw [follow, follow, List.cons_append, List.cons_append, List.append_assoc,
        List.append_assoc] at h
      have htail := (List.cons.inj h).2
      obtain ⟨rfl, hrest⟩ :=
        hx hy (endsNumber_follow hnumeral xs r) (endsNumber_follow hnumeral ys s) htail
      obtain ⟨rfl, hend⟩ := ih hxtail hytail hrest
      exact ⟨rfl, hend⟩

private theorem listing_append_inj (hnumeral : isNumeral close = false) (hcomma : close ≠ ',')
    (hclose : ∀ x, P x → ∀ r s, f x ++ r ≠ close :: s) {xs ys : List α}
    (hxs : ∀ x ∈ xs, P x) (hys : ∀ y ∈ ys, P y) (htold : ∀ x ∈ xs, Told f P x) {r s : List Char}
    (h : listing f close xs ++ r = listing f close ys ++ s) : xs = ys ∧ r = s := by
  cases xs with
  | nil =>
    cases ys with
    | nil => exact ⟨rfl, List.append_cancel_left h⟩
    | cons y ys =>
      rw [listing, listing, List.append_assoc] at h
      exact absurd h.symm (hclose y (hys y List.mem_cons_self) _ _)
  | cons x xs =>
    cases ys with
    | nil =>
      rw [listing, listing, List.append_assoc] at h
      exact absurd h (hclose x (hxs x List.mem_cons_self) _ _)
    | cons y ys =>
      -- a comma in front of either side
      exact follow_append_inj hnumeral hcomma htold hys (congrArg (List.cons ',') h)

end Listing

namespace Value

/-- A value whose floats are finite and in which only negative integers are spelled as such. -/
inductive Exact : Value → Prop
  | null : Exact .null
  | bool (b : Bool) : Exact (.bool b)
  | natural (n : UInt64) : Exact (.number (.natural n))
  | negative {i : Int64} (h : i < 0) : Exact (.number (.negative i))
  | finite (negative : Bool) (index : Fin Binary64.finiteCount) :
    Exact (.number (.float (.finite negative index)))
  | string (s : String) : Exact (.string s)
  | array {items : List Value} (h : ∀ item ∈ items, Exact item) : Exact (.array items)
  | object {members : List (String × Value)} (h : ∀ member ∈ members, Exact member.2) :
    Exact (.object members)

def chars (value : Value) : List Char := value.text.toList

def memberChars (member : String × Value) : List Char :=
  (quote member.1).toList ++ ':' :: member.2.chars

private theorem toList_textItems (item : Value) (items : List Value) (close : Char) :
    (textItems (item :: items)).toList ++ [close] = item.chars ++ follow chars close items := by
  induction items generalizing item with
  | nil => rfl
  | cons next items ih =>
    rw [textItems, follow, String.toList_append, String.toList_append, List.append_assoc, ih,
      List.append_assoc]
    · rfl
    · simp

private theorem toList_textMembers (member : String × Value) (members : List (String × Value))
    (close : Char) :
    (textMembers (member :: members)).toList ++ [close] =
      memberChars member ++ follow memberChars close members := by
  have hcolon : ":".toList = [':'] := rfl
  have hcomma : ",".toList = [','] := rfl
  induction members generalizing member with
  | nil =>
    obtain ⟨k, v⟩ := member
    simp only [textMembers, follow, memberChars, chars, String.toList_append, hcolon,
      List.append_assoc, List.cons_append, List.nil_append]
  | cons next members ih =>
    obtain ⟨k, v⟩ := member
    rw [textMembers]
    · simp only [String.toList_append, hcolon, hcomma, ih, follow, memberChars, chars,
        List.append_assoc, List.cons_append, List.nil_append]
    · simp

private theorem chars_array (items : List Value) :
    (array items).chars = '[' :: listing chars ']' items := by
  cases items with
  | nil => decide
  | cons item items =>
    rw [chars, text, String.toList_append, String.toList_append, List.append_assoc]
    exact congrArg (List.cons '[') (toList_textItems item items ']')

private theorem chars_object (members : List (String × Value)) :
    (object members).chars = '\x7b' :: listing memberChars '\x7d' members := by
  cases members with
  | nil => decide
  | cons member members =>
    rw [chars, text, String.toList_append, String.toList_append, List.append_assoc]
    exact congrArg (List.cons '\x7b') (toList_textMembers member members '\x7d')

inductive Kind where
  | null
  | bool
  | number
  | string
  | array
  | object

def Kind.ofChar? (c : Char) : Option Kind :=
  if isNumeral c then some .number
  else if c == 'n' then some .null
  else if c == 't' || c == 'f' then some .bool
  else if c == '"' then some .string
  else if c == '[' then some .array
  else if c == '\x7b' then some .object
  else none

def kind : Value → Kind
  | .null => .null
  | .bool _ => .bool
  | .number _ => .number
  | .string _ => .string
  | .array _ => .array
  | .object _ => .object

namespace Exact

variable {value other : Value} {r s : List Char}

private theorem isNumeral_of_mem_number {n : Number} (h : (number n).Exact) :
    ∀ c ∈ (numberText n).toList, isNumeral c = true := by
  cases h with
  | natural n =>
    rw [toList_natural]
    exact fun _ => isNumeral_of_mem_toDigits
  | negative hi =>
    rw [toList_negative hi, List.forall_mem_cons]
    exact ⟨by decide, fun _ => isNumeral_of_mem_toDigits⟩
  | finite negative index => exact fun _ => Layout.isNumeral_of_mem_finite

private theorem sign_natural (n : UInt64) :
    Numeral.sign (numberText (.natural n)).toList = (false, Nat.toDigits 10 n.toNat) := by
  rw [toList_natural, Numeral.sign_toDigits]

private theorem sign_negative {i : Int64} (h : i < 0) :
    Numeral.sign (numberText (.negative i)).toList = (true, Nat.toDigits 10 i.toInt.natAbs) := by
  rw [toList_negative h]
  rfl

private theorem sign_finite (negative : Bool) (index : Fin Binary64.finiteCount) :
    Numeral.sign (numberText (.float (.finite negative index))).toList =
      (negative, layout.magnitude index) :=
  Layout.sign_finite layout negative index

/-- Numbers that are written alike are the same: what stands behind the sign tells integers from
floats. -/
theorem eq_of_numberText {m n : Number} (hm : (number m).Exact) (hn : (number n).Exact)
    (h : numberText m = numberText n) : m = n := by
  have hsign := congrArg (fun text : String => Numeral.sign text.toList) h
  cases hm with
  | natural m =>
    cases hn with
    | natural n =>
      rw [sign_natural, sign_natural] at hsign
      rw [UInt64.toNat_inj.mp (Numeral.toDigits_inj (Prod.mk.inj hsign).2)]
    | negative hj =>
      rw [sign_natural, sign_negative hj] at hsign
      cases (Prod.mk.inj hsign).1
    | finite t index =>
      rw [sign_natural, sign_finite] at hsign
      exact absurd (Prod.mk.inj hsign).2 (toDigits_ne_magnitude _ _)
  | @negative i hi =>
    cases hn with
    | natural n =>
      rw [sign_negative hi, sign_natural] at hsign
      cases (Prod.mk.inj hsign).1
    | @negative j hj =>
      rw [sign_negative hi, sign_negative hj] at hsign
      have habs := Numeral.toDigits_inj (Prod.mk.inj hsign).2
      have hi' : i.toInt < 0 := Int64.lt_iff_toInt_lt.mp hi
      have hj' : j.toInt < 0 := Int64.lt_iff_toInt_lt.mp hj
      have hij : i = j := Int64.toInt_inj.mp (by omega)
      rw [hij]
    | finite t index =>
      rw [sign_negative hi, sign_finite] at hsign
      exact absurd (Prod.mk.inj hsign).2 (toDigits_ne_magnitude _ _)
  | finite s index =>
    cases hn with
    | natural n =>
      rw [sign_finite, sign_natural] at hsign
      exact absurd (Prod.mk.inj hsign).2.symm (toDigits_ne_magnitude _ _)
    | negative hj =>
      rw [sign_finite, sign_negative hj] at hsign
      exact absurd (Prod.mk.inj hsign).2.symm (toDigits_ne_magnitude _ _)
    | finite t index' =>
      obtain ⟨rfl, rfl⟩ := layout.finite_inj h
      rfl

private theorem exists_first_number {n : Number} (h : (number n).Exact) :
    ∃ c rest, (numberText n).toList = c :: rest ∧ Kind.ofChar? c = some .number := by
  have hnumeral := isNumeral_of_mem_number h
  cases htext : (numberText n).toList with
  | nil =>
    exfalso
    have hsign := congrArg Numeral.sign htext
    cases h with
    | natural n =>
      rw [sign_natural] at hsign
      exact Nat.toDigits_ne_nil (Prod.mk.inj hsign).2
    | negative hi =>
      rw [sign_negative hi] at hsign
      exact Nat.toDigits_ne_nil (Prod.mk.inj hsign).2
    | finite negative index =>
      rw [sign_finite] at hsign
      exact Layout.magnitude_ne_nil index.isLt (Prod.mk.inj hsign).2
  | cons c rest =>
    rw [htext] at hnumeral
    exact ⟨c, rest, rfl, if_pos (hnumeral c List.mem_cons_self)⟩

private theorem exists_first (h : value.Exact) :
    ∃ c rest, value.chars = c :: rest ∧ Kind.ofChar? c = some value.kind := by
  cases h with
  | null => exact ⟨'n', _, rfl, rfl⟩
  | bool b =>
    cases b with
    | false => exact ⟨'f', _, rfl, rfl⟩
    | true => exact ⟨'t', _, rfl, rfl⟩
  | natural n => exact exists_first_number (.natural n)
  | negative hi => exact exists_first_number (.negative hi)
  | finite negative index => exact exists_first_number (.finite negative index)
  | string s => exact ⟨'"', _, toList_quote s, rfl⟩
  | array _ => exact ⟨'[', _, chars_array _, rfl⟩
  | object _ => exact ⟨'\x7b', _, chars_object _, rfl⟩

theorem kind_eq (h : value.Exact) (h' : other.Exact) (heq : value.chars ++ r = other.chars ++ s) :
    value.kind = other.kind := by
  obtain ⟨c, rest, hchars, hkind⟩ := h.exists_first
  obtain ⟨d, rest', hchars', hkind'⟩ := h'.exists_first
  rw [hchars, hchars'] at heq
  rw [(List.cons.inj heq).1, hkind'] at hkind
  exact (Option.some.inj hkind).symm

private theorem chars_append_ne (h : value.Exact) {c : Char} (hc : Kind.ofChar? c = none) :
    value.chars ++ r ≠ c :: s := by
  intro heq
  obtain ⟨d, rest, hchars, hkind⟩ := h.exists_first
  rw [hchars] at heq
  rw [(List.cons.inj heq).1, hc] at hkind
  exact nomatch hkind

private theorem told_null : Told chars Exact .null := by
  intro other r s hother _ _ heq
  have hkind := kind_eq .null hother heq
  cases hother with
  | null => exact ⟨rfl, List.append_cancel_left heq⟩
  | _ => cases hkind

private theorem told_bool (b : Bool) : Told chars Exact (.bool b) := by
  intro other r s hother _ _ heq
  have hkind := kind_eq (.bool b) hother heq
  cases hother with
  | bool c =>
    cases b <;> cases c
    case true.false => exact absurd (List.cons.inj heq).1 (by decide)
    case false.true => exact absurd (List.cons.inj heq).1 (by decide)
    all_goals exact ⟨rfl, List.append_cancel_left heq⟩
  | _ => cases hkind

private theorem told_number {m : Number} (hm : (number m).Exact) :
    Told chars Exact (.number m) := by
  intro other r s hother hr hs heq
  have hkind := kind_eq hm hother heq
  cases other with
  | number n =>
    obtain ⟨htext, hend⟩ := append_inj_of_stop (isNumeral_of_mem_number hm)
      (isNumeral_of_mem_number hother) hr hs heq
    rw [eq_of_numberText hm hother (String.toList_inj.mp htext)]
    exact ⟨rfl, hend⟩
  | _ => cases hkind

private theorem told_string (a : String) : Told chars Exact (.string a) := by
  intro other r s hother _ _ heq
  have hkind := kind_eq (.string a) hother heq
  cases hother with
  | string b =>
    obtain ⟨rfl, hend⟩ := quote_append_inj heq
    exact ⟨rfl, hend⟩
  | _ => cases hkind

private theorem told_array {items : List Value} (hitems : ∀ item ∈ items, item.Exact)
    (htold : ∀ item ∈ items, Told chars Exact item) : Told chars Exact (.array items) := by
  intro other r s hother _ _ heq
  have hkind := kind_eq (.array hitems) hother heq
  cases hother with
  | array hothers =>
    rw [chars_array, chars_array] at heq
    obtain ⟨rfl, hend⟩ := listing_append_inj (by decide) (by decide)
      (fun _ h _ _ => chars_append_ne h (by decide)) hitems hothers htold (List.cons.inj heq).2
    exact ⟨rfl, hend⟩
  | _ => cases hkind

private theorem told_memberChars {member : String × Value} (h : Told chars Exact member.2) :
    Told memberChars (fun member => member.2.Exact) member := by
  intro other r s hother hr hs heq
  simp only [memberChars, List.append_assoc] at heq
  obtain ⟨hkey, hrest⟩ := quote_append_inj heq
  obtain ⟨hvalue, hend⟩ := h hother hr hs (List.cons.inj hrest).2
  exact ⟨Prod.ext hkey hvalue, hend⟩

private theorem memberChars_append_ne (member : String × Value) :
    memberChars member ++ r ≠ '\x7d' :: s := by
  rw [memberChars, toList_quote]
  exact fun h => absurd (List.cons.inj h).1 (by decide)

private theorem told_object {members : List (String × Value)}
    (hmembers : ∀ member ∈ members, member.2.Exact)
    (htold : ∀ member ∈ members, Told chars Exact member.2) :
    Told chars Exact (.object members) := by
  intro other r s hother _ _ heq
  have hkind := kind_eq (.object hmembers) hother heq
  cases hother with
  | object hothers =>
    rw [chars_object, chars_object] at heq
    obtain ⟨rfl, hend⟩ := listing_append_inj (by decide) (by decide)
      (fun member _ _ _ => memberChars_append_ne member) hmembers hothers
      (fun member hm => told_memberChars (htold member hm)) (List.cons.inj heq).2
    exact ⟨rfl, hend⟩
  | _ => cases hkind

theorem told_chars (h : value.Exact) : Told chars Exact value := by
  induction h with
  | null => exact told_null
  | bool b => exact told_bool b
  | natural n => exact told_number (.natural n)
  | negative hi => exact told_number (.negative hi)
  | finite negative index => exact told_number (.finite negative index)
  | string s => exact told_string s
  | array hitems ih => exact told_array hitems ih
  | object hmembers ih => exact told_object hmembers ih

theorem eq_of_text (h : value.Exact) (h' : other.Exact) (heq : value.text = other.text) :
    value = other := by
  have hchars : value.chars ++ [] = other.chars ++ [] := by rw [chars, chars, heq]
  exact (told_chars h h' .nil .nil hchars).1

end Exact

end Value

end ManifestDiff.Json
