import ManifestDiff.Number.Numeral
/-!
# Plain scalars

What an untagged plain scalar stands for: null, a boolean, a number, or its own text. Digits with a
leading zero are text, and an integer too wide for a 64-bit word is refused as long as 128 bits hold
it; a wider one is read as a float.
-/
namespace ManifestDiff.Yaml

inductive Plain where
  | null
  | bool (b : Bool)
  | number (n : Number)
  | tooWide
  | text
deriving DecidableEq, Repr

namespace Plain

def isNull (cs : List Char) : Bool :=
  cs == ['~'] || cs == "null".toList || cs == "Null".toList || cs == "NULL".toList

def bool? (cs : List Char) : Option Bool :=
  if cs == "true".toList || cs == "True".toList || cs == "TRUE".toList then some true
  else if cs == "false".toList || cs == "False".toList || cs == "FALSE".toList then some false
  else none

def startsWithSign : List Char → Bool
  | c :: _ => c == '+' || c == '-'
  | [] => false

def isPaddedDigits (cs : List Char) : Bool :=
  match (Numeral.sign cs).2 with
  | '0' :: d :: rest => (d :: rest).all Numeral.isDigit
  | _ => false

def radixDigits? : List Char → Option (Nat × List Char)
  | '0' :: 'x' :: ds => some (16, ds)
  | '0' :: 'o' :: ds => some (8, ds)
  | '0' :: 'b' :: ds => some (2, ds)
  | _ => none

def magnitude? (cs : List Char) : Option Nat :=
  match radixDigits? cs with
  | some (radix, ds) => Numeral.natural? radix ds
  | none => if isPaddedDigits cs then none else Numeral.natural? 10 cs

def integer? : List Char → Option Int
  | '+' :: ds => (magnitude? ds).map Int.ofNat
  | '-' :: ds => (magnitude? ds).map fun n => -(n : Int)
  | ds => (magnitude? ds).map Int.ofNat

/-- The float that the text spells; a numeral past the largest number is none. -/
def float? (cs : List Char) : Option Binary64 :=
  let unsigned := match cs with
    | '+' :: rest => rest
    | _ => cs
  if cs != unsigned && startsWithSign unsigned then none
  else if unsigned == ".inf".toList || unsigned == ".Inf".toList || unsigned == ".INF".toList then
    some (.infinite false)
  else if cs == "-.inf".toList || cs == "-.Inf".toList || cs == "-.INF".toList then
    some (.infinite true)
  else if cs == ".nan".toList || cs == ".NaN".toList || cs == ".NAN".toList then some .nan
  else match Numeral.decimal? unsigned with
    | some x => if x.isFinite then some x else none
    | none => none

def fitsWideWord (value : Int) : Bool :=
  -0x80000000000000000000000000000000 ≤ value && value < 0x100000000000000000000000000000000

/-- The integer reading, if there is one: a number, or a refusal of one that 128 bits hold. -/
def ofInteger? (cs : List Char) : Option Plain :=
  match integer? cs with
  | none => none
  | some value =>
    match Number.ofInt? value with
    | some n => some (.number n)
    | none => if fitsWideWord value then some .tooWide else none

def read (cs : List Char) : Plain :=
  if cs.isEmpty || isNull cs then .null
  else match bool? cs with
    | some b => .bool b
    | none => match ofInteger? cs with
      | some reading => reading
      | none =>
        if isPaddedDigits cs then .text
        else match float? cs with
          | some x => .number (.float x)
          | none => .text

end Plain
end ManifestDiff.Yaml
