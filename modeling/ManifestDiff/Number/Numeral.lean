/-!
# Numbers

A binary64 number is NaN, an infinity, or a sign with a finite magnitude. The finite magnitudes are
numbered in increasing order from zero, so a magnitude and its successor are neighbours and no
number but zero is written twice. A number of a document is a natural number or a negative one when
it fits a 64-bit word, and binary64 otherwise. A decimal numeral has a digit before or after its
point; its value is the nearest binary64 number.
-/
namespace ManifestDiff

/-- The number of magnitudes between a power of two and the next one: `2 ^ 52`. -/
abbrev Binary64.binadeSize : Nat := 0x10000000000000

abbrev Binary64.finiteCount : Nat := 2047 * binadeSize

inductive Binary64 where
  | nan
  | infinite (negative : Bool)
  | finite (negative : Bool) (index : Fin Binary64.finiteCount)
deriving DecidableEq, Repr

namespace Binary64

def zero : Binary64 := .finite false ⟨0, by decide⟩

instance : Inhabited Binary64 := ⟨zero⟩

def isFinite : Binary64 → Bool
  | .finite .. => true
  | _ => false

def significand (index : Nat) : Nat :=
  if index < binadeSize then index else binadeSize + index % binadeSize

/-- The magnitude with this index is its significand times two to this power. -/
def binaryExponent (index : Nat) : Int :=
  if index < binadeSize then -1074 else (index / binadeSize : Nat) - 1075

/-- Numeric equality: the two zeros are one number, and NaN is itself. -/
def equal : Binary64 → Binary64 → Bool
  | .finite s i, .finite t j => i = j && (s == t || i.val == 0)
  | .infinite s, .infinite t => s == t
  | .nan, .nan => true
  | _, _ => false

/-- The number with this magnitude index, or an infinity when the index is past the last one. -/
def ofIndex (negative : Bool) (index : Nat) : Binary64 :=
  if h : index < finiteCount then .finite negative ⟨index, h⟩ else .infinite negative

/-- The quotient rounded to the nearest integer, halves going to the even neighbour. -/
def roundQuotient (num den : Nat) : Nat :=
  let q := num / den
  let twice := 2 * (num % den)
  if twice < den || (twice == den && q % 2 == 0) then q else q + 1

/-- The index of the magnitude nearest to `num / den`, halves going to the even significand. The
result is past the last index when the quotient is too large. -/
def nearestIndex (num den : Nat) : Nat :=
  if num = 0 then 0
  else
    let guess : Int := (num.log2 : Int) - den.log2 - 52
    let scaled (e : Int) : Nat × Nat :=
      if e < 0 then (num * Nat.pow 2 (-e).toNat, den) else (num, den * Nat.pow 2 e.toNat)
    let below := let (n, d) := scaled guess; n / d < binadeSize
    let e := max (if below then guess - 1 else guess) (-1074)
    let (n, d) := scaled e
    (e + 1074).toNat * binadeSize + roundQuotient n d

/-- The number nearest to `± coefficient * 10 ^ exponent`. Exponents far outside the range of the
format are answered without building the power. -/
def ofDecimal (negative : Bool) (coefficient : Nat) (exponent : Int) : Binary64 :=
  if coefficient = 0 then ofIndex negative 0
  else if exponent < 0 then
    if coefficient.log2 + 3 * exponent < -1200 then ofIndex negative 0
    else ofIndex negative (nearestIndex coefficient (Nat.pow 10 (-exponent).toNat))
  else if exponent > 400 then .infinite negative
  else ofIndex negative (nearestIndex (coefficient * Nat.pow 10 exponent.toNat) 1)

end Binary64

inductive Number where
  | natural (n : UInt64)
  | negative (i : Int64)
  | float (x : Binary64)
deriving DecidableEq, Repr

namespace Number

/-- The number with this integer value, if a 64-bit word holds it. -/
def ofInt? (value : Int) : Option Number :=
  if 0 ≤ value then
    if value < UInt64.size then some (.natural (UInt64.ofNat value.toNat)) else none
  else if Int64.minValue.toInt ≤ value then some (.negative (Int64.ofInt value))
  else none

/-- Integers of different sign and floats are never equal to each other. -/
def equal : Number → Number → Bool
  | .natural m, .natural n => m == n
  | .negative i, .negative j => i == j
  | .float x, .float y => x.equal y
  | _, _ => false

end Number
end ManifestDiff

namespace ManifestDiff.Numeral

def digitValue (c : Char) : Nat :=
  if '0' ≤ c && c ≤ '9' then c.toNat - 48
  else if 'a' ≤ c && c ≤ 'f' then c.toNat - 87
  else if 'A' ≤ c && c ≤ 'F' then c.toNat - 55
  else 16

def isDigit (c : Char) : Bool := '0' ≤ c && c ≤ '9'

/-- The number that digits of this radix spell, with the first ones spelling `before`. -/
def value (radix before : Nat) (ds : List Char) : Nat :=
  ds.foldl (fun n d => n * radix + digitValue d) before

def natural? (radix : Nat) (ds : List Char) : Option Nat :=
  if !ds.isEmpty && ds.all (digitValue · < radix) then some (value radix 0 ds) else none

def sign : List Char → Bool × List Char
  | '-' :: rest => (true, rest)
  | '+' :: rest => (false, rest)
  | cs => (false, cs)

/-- The exponent part of a decimal numeral, zero when there is none. -/
def exponent? : List Char → Option Int
  | [] => some 0
  | c :: rest =>
    if c == 'e' || c == 'E' then
      let (negative, ds) := sign rest
      (natural? 10 ds).map fun n => if negative then -(n : Int) else n
    else none

/-- The value of a decimal numeral, an infinity when the numeral is too large. -/
def decimal? (cs : List Char) : Option Binary64 := do
  let (negative, cs) := sign cs
  let whole := cs.takeWhile isDigit
  let (places, tail) := match cs.dropWhile isDigit with
    | '.' :: rest => (rest.takeWhile isDigit, rest.dropWhile isDigit)
    | rest => ([], rest)
  if whole.isEmpty && places.isEmpty then none
  else
    let exponent ← exponent? tail
    return .ofDecimal negative (value 10 (value 10 0 whole) places) (exponent - places.length)

end ManifestDiff.Numeral
