import ManifestDiff.Proofs.Number.Numeral
import ManifestDiff.Proofs.Text
import ManifestDiff.Yaml.Quoting
import ManifestDiff.Yaml.Token.Scalar
import Mathlib.Algebra.Group.Nat.Defs
/-!
# Quoted strings are read back

Between quotes every string is written in its own way. In single quotes a character takes one place
or two and a line end is followed by a margin. In double quotes an escape is what the scanner reads
the character from, so the characters are read back one by one up to the closing quote.
-/
namespace ManifestDiff.Yaml.Quoting

open Numeral

def twice (c : Char) : List Char := if c == '\'' then ['\'', '\''] else [c]

theorem twice_eq_cons (c : Char) : ∃ ds, twice c = c :: ds := by
  rw [twice]
  split
  next hc =>
    rw [beq_iff_eq.mp hc]
    exact ⟨_, rfl⟩
  next => exact ⟨_, rfl⟩

theorem twice_append_inj {c d : Char} {r s : List Char} (h : twice c ++ r = twice d ++ s) :
    c = d ∧ r = s := by
  obtain ⟨cs, hcs⟩ := twice_eq_cons c
  obtain ⟨ds, hds⟩ := twice_eq_cons d
  have heads := h
  rw [hcs, hds] at heads
  obtain rfl := (List.cons.inj heads).1
  exact ⟨rfl, List.append_cancel_left h⟩

def margin (indent : Nat) (atLineStart : Bool) : List Char :=
  if atLineStart then List.replicate indent ' ' else []

variable {indent : Nat} {atLineStart : Bool} {c : Char}

theorem singleQuoted_break (h : isBreak c = true) (rest : List Char) :
    singleQuoted indent atLineStart (c :: rest) = c :: singleQuoted indent true rest := by
  rw [singleQuoted, if_pos h]

theorem singleQuoted_char (h : isBreak c = false) (rest : List Char) :
    singleQuoted indent atLineStart (c :: rest) =
      margin indent atLineStart ++ (twice c ++ singleQuoted indent false rest) := by
  rw [singleQuoted, if_neg (by simp [h]), List.append_assoc]
  rfl

theorem isBreak_head_singleQuoted (c : Char) (rest : List Char) :
    ∃ d ds, singleQuoted indent atLineStart (c :: rest) = d :: ds ∧ isBreak d = isBreak c := by
  cases hc : isBreak c with
  | true => exact ⟨c, _, singleQuoted_break hc rest, hc⟩
  | false =>
    obtain ⟨ds, hds⟩ := twice_eq_cons c
    rw [singleQuoted_char hc, hds]
    cases atLineStart with
    | false => exact ⟨c, _, rfl, hc⟩
    | true =>
      cases indent with
      | zero => exact ⟨c, _, rfl, hc⟩
      | succ indent => exact ⟨' ', _, rfl, by decide⟩

theorem isBreak_eq_of_singleQuoted {d : Char} {cs ds : List Char}
    (h : singleQuoted indent atLineStart (c :: cs) = singleQuoted indent atLineStart (d :: ds)) :
    isBreak c = isBreak d := by
  obtain ⟨e, es, hcs, hc⟩ := isBreak_head_singleQuoted c cs
  obtain ⟨f, fs, hds, hd⟩ := isBreak_head_singleQuoted d ds
  rw [hcs, hds] at h
  rw [← hc, ← hd, (List.cons.inj h).1]

theorem singleQuoted_cons_ne_nil (c : Char) (rest : List Char) :
    singleQuoted indent atLineStart (c :: rest) ≠ margin indent atLineStart := by
  cases hc : isBreak c with
  | true =>
    rw [singleQuoted_break hc]
    intro h
    have hm : c ∈ margin indent atLineStart := h ▸ List.mem_cons_self
    have hblank : c = ' ' := by
      rw [margin] at hm
      split at hm
      · exact List.eq_of_mem_replicate hm
      · cases hm
    rw [hblank] at hc
    exact absurd hc (by decide)
  | false =>
    obtain ⟨ds, hds⟩ := twice_eq_cons c
    rw [singleQuoted_char hc, hds]
    simp

theorem singleQuoted_inj {indent : Nat} {atLineStart : Bool} {cs ds : List Char}
    (h : singleQuoted indent atLineStart cs = singleQuoted indent atLineStart ds) : cs = ds := by
  induction cs generalizing ds atLineStart with
  | nil =>
    cases ds with
    | nil => rfl
    | cons d ds => exact absurd h.symm (singleQuoted_cons_ne_nil d ds)
  | cons c cs ih =>
    cases ds with
    | nil => exact absurd h (singleQuoted_cons_ne_nil c cs)
    | cons d ds =>
      -- the first character tells whether both strings begin with a line end
      have hd : isBreak d = isBreak c := (isBreak_eq_of_singleQuoted h).symm
      cases hbreak : isBreak c with
      | true =>
        rw [singleQuoted_break hbreak, singleQuoted_break (hd.trans hbreak)] at h
        obtain ⟨rfl, hrest⟩ := List.cons.inj h
        rw [ih hrest]
      | false =>
        rw [singleQuoted_char hbreak, singleQuoted_char (hd.trans hbreak)] at h
        obtain ⟨rfl, hrest⟩ := twice_append_inj (List.append_cancel_left h)
        rw [ih hrest]

private theorem digitValue_hexDigit : ∀ n < 16, digitValue (hexDigit n) = n := by decide

theorem length_hex (width n : Nat) : (hex width n).length = width := by
  induction width generalizing n with
  | zero => rfl
  | succ width ih => rw [hex, List.length_append, ih, List.length_singleton]

theorem value_hex (width n : Nat) : value 16 0 (hex width n) = n % 16 ^ width := by
  induction width generalizing n with
  | zero => rw [Nat.pow_zero, Nat.mod_one]; rfl
  | succ width ih =>
    rw [hex, value_append, ih]
    change n / 16 % 16 ^ width * 16 + digitValue (hexDigit (n % 16)) = _
    rw [digitValue_hexDigit _ (Nat.mod_lt n (by decide)), Nat.pow_succ', Nat.mod_mul]
    omega

private theorem digitValue_of_mem_hex {width n : Nat} {d : Char} (h : d ∈ hex width n) :
    digitValue d < 16 := by
  induction width generalizing n with
  | zero => cases h
  | succ width ih =>
    rw [hex, List.mem_append, List.mem_singleton] at h
    rcases h with h | rfl
    · exact ih h
    · have hdigit := Nat.mod_lt n (y := 16) (by decide)
      rwa [digitValue_hexDigit _ hdigit]

theorem hexNumber?_hex {width n : Nat} (hwidth : 0 < width) (h : n < 16 ^ width)
    (rest : List Char) : Cursor.hexNumber? width (hex width n ++ rest) = some n := by
  have hlength : width ≤ (hex width n ++ rest).length := by
    rw [List.length_append, length_hex]
    omega
  have hsome : (hex width n).isEmpty = false := by
    rw [List.isEmpty_eq_false_iff, ← List.length_pos_iff, length_hex]
    exact hwidth
  have hall : (hex width n).all (digitValue · < 16) = true := by
    rw [List.all_eq_true]
    exact fun d hd => decide_eq_true (digitValue_of_mem_hex hd)
  rw [Cursor.hexNumber?, if_pos hlength, List.take_left' (length_hex width n), natural?, hsome, hall,
    value_hex, Nat.mod_eq_of_lt h]
  rfl

def unescape? : List Char → Option (Char × List Char)
  | [] => none
  | c :: rest =>
    if c == '"' then none
    else if c == '\\' then
      match Cursor.escape (c :: rest) with
      | .ok (d, width) => some (d, (c :: rest).drop width)
      | .error _ => none
    else some (c, rest)

private theorem unescape?_of_escape {mark d : Char} {rest tail : List Char} {width : Nat}
    (h : Cursor.escape ('\\' :: mark :: rest) = .ok (d, width + 2)) (htail : rest.drop width = tail) :
    unescape? ('\\' :: mark :: rest) = some (d, tail) := by
  rw [unescape?, if_neg (by decide), if_pos (by decide), h]
  exact congrArg (fun tail => some (d, tail)) htail

theorem unescape?_escape (c : Char) (rest : List Char) :
    unescape? (escape c ++ rest) = some (c, rest) := by
  have hvalid : c.toNat.isValidChar := c.valid
  rw [escape]
  cases hletter : shortEscape? c with
  | some letter =>
    have hc : c = Char.ofNat c.toNat := (Char.ofNat_toNat c).symm
    rw [shortEscape?.eq_def] at hletter
    split at hletter
    case h_15 => cases hletter
    all_goals
      next hcode =>
        cases hletter
        rw [hc, hcode]
        rfl
  | none =>
    have hplain : c ≠ '"' ∧ c ≠ '\\' := by
      constructor <;> rintro rfl <;> cases hletter
    have hcoded (width : Nat) (hwidth : 0 < width) (h : c.toNat < 16 ^ width) :
        Cursor.hexNumber? width (hex width c.toNat ++ rest) = some c.toNat ∧
        (hex width c.toNat ++ rest).drop width = rest :=
      ⟨hexNumber?_hex hwidth h rest, List.drop_left' (length_hex width _)⟩
    dsimp only
    split
    · simp [unescape?, hplain]
    split
    · obtain ⟨hhex, hrest⟩ := hcoded 2 (by decide) (by omega)
      refine unescape?_of_escape ?_ hrest
      simp [Cursor.escape, hhex, hvalid]
    split
    · obtain ⟨hhex, hrest⟩ := hcoded 4 (by decide) (by omega)
      refine unescape?_of_escape ?_ hrest
      simp [Cursor.escape, hhex, hvalid]
    · have hsize : c.toNat < 16 ^ 8 := c.val.toNat_lt
      obtain ⟨hhex, hrest⟩ := hcoded 8 (by decide) hsize
      refine unescape?_of_escape ?_ hrest
      simp [Cursor.escape, hhex, hvalid]

theorem write_inj {s t : String} (hstyle : style s.toList = style t.toList)
    (hline : style s.toList ≠ .literal) (h : write indent s = write indent t) : s = t := by
  apply String.toList_inj.mp
  rw [write, write, ← hstyle] at h
  cases hs : style s.toList with
  | plain =>
    rw [hs] at h
    exact h
  | singleQuoted =>
    rw [hs] at h
    exact singleQuoted_inj (List.append_cancel_right (List.tail_eq_of_cons_eq h))
  | doubleQuoted =>
    rw [hs] at h
    exact (flatMap_append_inj unescape?_escape (fun _ => rfl) (List.tail_eq_of_cons_eq h)).1
  | literal => exact absurd hs hline

end ManifestDiff.Yaml.Quoting
