import ManifestDiff.Render.Palette
import Mathlib.Data.List.Basic
/-!
# Colour sequences

A colour sequence is an escape character, a bracket, digits and an `m`. A text falls apart into its
colour sequences and its other characters, from left to right. A coloured text decorates a plain one
if that is what is left without the sequences, and if every colour is closed by a reset before the
next one is opened. Texts without an escape character decorate themselves, painting one decorates
it, and decorated texts may be joined.
-/
namespace ManifestDiff

namespace Palette

/-- A character of a text, or a colour sequence with its digits. -/
inductive Mark where
  | char (c : Char)
  | sequence (digits : List Char)

def Mark.char? : Mark → Option Char
  | .char c => some c
  | .sequence _ => none

def Mark.sequence? : Mark → Option (List Char)
  | .char _ => none
  | .sequence digits => some digits

def leading? : List Char → Option (List Char × List Char)
  | '\x1b' :: '[' :: rest =>
    match rest.takeWhile Char.isDigit, rest.dropWhile Char.isDigit with
    | d :: ds, 'm' :: after => some (d :: ds, after)
    | _, _ => none
  | _ => none

theorem length_lt_of_leading? {cs digits after : List Char}
    (h : leading? cs = some (digits, after)) : after.length < cs.length := by
  rw [leading?.eq_def] at h
  split at h
  next rest =>
    split at h
    next d ds after' _ hdrop =>
      cases h
      have hlength := (List.dropWhile_suffix Char.isDigit (l := rest)).length_le
      rw [hdrop] at hlength
      simp only [List.length_cons] at hlength ⊢
      omega
    next => cases h
  next => cases h

def marks (cs : List Char) : List Mark :=
  match cs with
  | [] => []
  | c :: rest =>
    match _h : leading? (c :: rest) with
    | some (digits, after) => .sequence digits :: marks after
    | none => .char c :: marks rest
termination_by cs.length
decreasing_by
  · exact length_lt_of_leading? _h
  · exact Nat.lt_succ_self rest.length

def uncoloured (text : String) : String :=
  String.ofList ((marks text.toList).filterMap Mark.char?)

/-- The digits of the colour sequences of a text, in order. -/
def sequences (text : String) : List (List Char) :=
  (marks text.toList).filterMap Mark.sequence?

/-- Colours that are opened one by one, each of them closed by a reset before the next. -/
inductive Closed : List (List Char) → Prop
  | nil : Closed []
  | cons {colour : List Char} {rest : List (List Char)} (hcolour : colour ≠ ['0'])
    (h : Closed rest) : Closed (colour :: ['0'] :: rest)

theorem Closed.append {xs ys : List (List Char)} (hx : Closed xs) (hy : Closed ys) :
    Closed (xs ++ ys) := by
  induction hx with
  | nil => exact hy
  | cons hcolour _ ih => exact .cons hcolour ih

theorem marks_nil : marks [] = [] := by rw [marks]

theorem marks_cons_of_ne {c : Char} (h : c ≠ '\x1b') (rest : List Char) :
    marks (c :: rest) = .char c :: marks rest := by
  have hnone : leading? (c :: rest) = none := by
    rw [leading?.eq_def]
    split
    next heq => exact absurd (List.cons.inj heq).1 h
    next => rfl
  rw [marks]
  split
  next heq => rw [hnone] at heq; cases heq
  next => rfl

theorem marks_append {cs : List Char} (h : '\x1b' ∉ cs) (rest : List Char) :
    marks (cs ++ rest) = cs.map .char ++ marks rest := by
  induction cs with
  | nil => rfl
  | cons c cs ih =>
    rw [List.mem_cons, not_or] at h
    rw [List.cons_append, marks_cons_of_ne (Ne.symm h.1), ih h.2]
    rfl

theorem marks_sequence {digits : List Char} (hne : digits ≠ [])
    (hdigits : ∀ d ∈ digits, d.isDigit = true) (rest : List Char) :
    marks ('\x1b' :: '[' :: (digits ++ 'm' :: rest)) = .sequence digits :: marks rest := by
  have htake : (digits ++ 'm' :: rest).takeWhile Char.isDigit = digits := by
    rw [List.takeWhile_append_of_pos hdigits]
    simp
  have hdrop : (digits ++ 'm' :: rest).dropWhile Char.isDigit = 'm' :: rest := by
    rw [List.dropWhile_append_of_pos hdigits]
    simp
  have hleading : leading? ('\x1b' :: '[' :: (digits ++ 'm' :: rest)) = some (digits, rest) := by
    cases digits with
    | nil => exact absurd rfl hne
    | cons d ds => simp only [leading?, htake, hdrop]
  rw [marks]
  split
  next heq =>
    rw [hleading] at heq
    cases heq
    rfl
  next heq => rw [hleading] at heq; cases heq

/-- The marks of the coloured text are its own also when something follows it; without the colour
sequences it is the plain text, and every colour in it is closed. -/
def Decorates (coloured plain : List Char) : Prop :=
  ∃ ms : List Mark, (∀ rest, marks (coloured ++ rest) = ms ++ marks rest) ∧
    ms.filterMap Mark.char? = plain ∧ Closed (ms.filterMap Mark.sequence?)

private theorem filterMap_char?_map (cs : List Char) :
    (cs.map Mark.char).filterMap Mark.char? = cs := by
  simp [List.filterMap_map, Function.comp_def, Mark.char?]

private theorem filterMap_sequence?_map (cs : List Char) :
    (cs.map Mark.char).filterMap Mark.sequence? = [] := by
  simp [List.filterMap_map, Function.comp_def, Mark.sequence?]

namespace Decorates

theorem of_not_mem {cs : List Char} (h : '\x1b' ∉ cs) : Decorates cs cs := by
  refine ⟨cs.map .char, marks_append h, filterMap_char?_map cs, ?_⟩
  rw [filterMap_sequence?_map]
  exact .nil

theorem append {cs ds cs' ds' : List Char} (h : Decorates cs cs') (h' : Decorates ds ds') :
    Decorates (cs ++ ds) (cs' ++ ds') := by
  obtain ⟨ms, hms, hchars, hclosed⟩ := h
  obtain ⟨ns, hns, hchars', hclosed'⟩ := h'
  refine ⟨ms ++ ns, ?_, ?_, ?_⟩
  · intro rest
    rw [List.append_assoc, hms, hns, List.append_assoc]
  · rw [List.filterMap_append, hchars, hchars']
  · rw [List.filterMap_append]
    exact hclosed.append hclosed'

theorem toList_append {s t s' t' : String} (h : Decorates s.toList s'.toList)
    (h' : Decorates t.toList t'.toList) : Decorates (s ++ t).toList (s' ++ t').toList := by
  rw [String.toList_append, String.toList_append]
  exact h.append h'

theorem uncoloured_eq {s t : String} (h : Decorates s.toList t.toList) : uncoloured s = t := by
  obtain ⟨ms, hms, hchars, -⟩ := h
  have hmarks := hms []
  rw [List.append_nil, marks_nil, List.append_nil] at hmarks
  rw [uncoloured, hmarks, hchars, String.ofList_toList]

theorem closed {s t : String} (h : Decorates s.toList t.toList) : Closed (sequences s) := by
  obtain ⟨ms, hms, -, hclosed⟩ := h
  have hmarks := hms []
  rw [List.append_nil, marks_nil, List.append_nil] at hmarks
  rw [sequences, hmarks]
  exact hclosed

theorem sequences_append {s t : String} (h : Decorates s.toList t.toList) (rest : String) :
    sequences (s ++ rest) = sequences s ++ sequences rest := by
  obtain ⟨ms, hms, -, -⟩ := h
  have hmarks := hms []
  rw [List.append_nil, marks_nil, List.append_nil] at hmarks
  rw [sequences, sequences, sequences, String.toList_append, hms, hmarks, List.filterMap_append]

end Decorates

theorem reopen_of_not_mem (start : List Char) {cs : List Char} (h : '\x1b' ∉ cs) :
    reopen start cs = cs := by
  induction cs with
  | nil => rfl
  | cons c cs ih =>
    rw [List.mem_cons, not_or] at h
    rw [reopen.eq_def]
    split
    next heq => exact absurd (List.cons.inj heq).1.symm h.1
    next heq => rw [← (List.cons.inj heq).1, ← (List.cons.inj heq).2, ih h.2]
    next heq => cases heq

theorem decorates_ansi (tone : Tone) {text : String} (h : '\x1b' ∉ text.toList) :
    Decorates (ansi tone text).toList text.toList := by
  have htext : (ansi tone text).toList =
      '\x1b' :: '[' :: ((colour tone).toList ++ 'm' :: (text.toList ++ '\x1b' :: '[' ::
        (['0'] ++ 'm' :: []))) := by
    simp [ansi, wrap, opening, reset, reopen_of_not_mem _ h]
  have hcode : (colour tone).toList ≠ [] ∧ (colour tone).toList ≠ ['0'] ∧
      (colour tone).toList.all Char.isDigit = true := by
    cases tone <;> decide
  obtain ⟨hne, hcolour, hall⟩ := hcode
  have hdigits : ∀ d ∈ (colour tone).toList, d.isDigit = true := List.all_eq_true.mp hall
  refine ⟨.sequence (colour tone).toList :: (text.toList.map .char ++ [.sequence ['0']]), ?_, ?_, ?_⟩
  · intro rest
    have hreset : marks ('\x1b' :: '[' :: (['0'] ++ 'm' :: rest)) = .sequence ['0'] :: marks rest :=
      marks_sequence (by decide) (List.forall_mem_singleton.mpr rfl) rest
    have hpainted := marks_sequence hne hdigits
      (text.toList ++ '\x1b' :: '[' :: (['0'] ++ 'm' :: rest))
    rw [marks_append h, hreset] at hpainted
    simpa [htext] using hpainted
  · rw [List.filterMap_cons, List.filterMap_append, filterMap_char?_map]
    exact List.append_nil _
  · rw [List.filterMap_cons, List.filterMap_append, filterMap_sequence?_map]
    exact .cons hcolour .nil

end Palette
end ManifestDiff
