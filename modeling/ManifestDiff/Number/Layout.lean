import ManifestDiff.Number.Numeral
/-!
# Decimals

Every positive magnitude is the nearest one for an interval of reals. The shortest decimal of the
magnitude is the point of that interval on the coarsest decimal grid that meets it, and of two such
points the one nearer to the magnitude. A layout tells how a number is written with these digits:
where the positional form ends, whether a whole number keeps a fraction, and how an exponent is
marked.
-/
namespace ManifestDiff.Shortest

structure Decimal where
  coefficient : Nat
  exponent : Int
deriving DecidableEq, Repr

inductive Tie where
  | up
  | even
deriving DecidableEq, Repr

/-- A magnitude together with the ends of its rounding interval, all over one denominator. -/
structure Interval where
  low : Nat
  value : Nat
  high : Nat
  den : Nat
  closed : Bool

/-- The interval below a power of two is half as wide as the one above it, except where the spacing
has reached its minimum. -/
def Interval.ofIndex (index : Nat) : Interval :=
  let m := Binary64.significand index
  let e := Binary64.binaryExponent index
  let below := if m == Binary64.binadeSize && e > -1074 then 1 else 2
  let (num, den) := if e < 0 then (1, Nat.pow 2 (-e).toNat) else (Nat.pow 2 e.toNat, 1)
  ⟨(4 * m - below) * num, 4 * m * num, (4 * m + 2) * num, 4 * den, m % 2 == 0⟩

def Interval.inUnitsOf (i : Interval) (k : Int) : Interval :=
  if k < 0 then
    let s := Nat.pow 10 (-k).toNat
    { i with low := i.low * s, value := i.value * s, high := i.high * s }
  else { i with den := i.den * Nat.pow 10 k.toNat }

def Interval.contains (i : Interval) (d : Nat) : Bool :=
  let x := d * i.den
  (i.low < x && x < i.high) || (i.closed && (x == i.low || x == i.high))

/-- The integer in the interval that is nearest to its value, if it has one next to the value. -/
def Interval.nearest? (tie : Tie) (i : Interval) : Option Nat :=
  let d := i.value / i.den
  let twice := 2 * (i.value % i.den)
  match i.contains d, i.contains (d + 1) with
  | false, false => none
  | true, false => some d
  | false, true => some (d + 1)
  | true, true =>
    if twice < i.den then some d
    else if twice == i.den && tie == .even && d % 2 == 0 then some d
    else some (d + 1)

/-- The first grid with a hit, going from units of `10 ^ k` down. -/
def search (tie : Tie) (i : Interval) : Nat → Int → Decimal
  | 0, k => let j := i.inUnitsOf k; ⟨j.value / j.den, k⟩
  | fuel + 1, k =>
    match (i.inUnitsOf k).nearest? tie with
    | some d => ⟨d, k⟩
    | none => search tie i fuel (k - 1)

/-- The shortest decimal of a positive magnitude. The search starts on a grid that is coarser than
the magnitude and needs at most the seventeen digits that tell any two magnitudes apart. -/
def ofIndex (tie : Tie) (index : Nat) : Decimal :=
  let top := Binary64.binaryExponent index + (Binary64.significand index).log2 + 2
  search tie (.ofIndex index) 24 (top * 30103 / 100000 + 1)

end ManifestDiff.Shortest

namespace ManifestDiff

/-- The choices a number format makes. The exponent of a number is the one of its first digit. -/
structure Layout where
  tie : Shortest.Tie
  leastPositional : Option Int
  greatestPositional : Option Int
  keepsFraction : Bool
  signsExponent : Bool

namespace Layout

def digits (n : Nat) : List Char := Nat.toDigits 10 n

private def isPositional (layout : Layout) (exponent : Int) : Bool :=
  layout.leastPositional.all (· ≤ exponent) && layout.greatestPositional.all (exponent ≤ ·)

/-- The positional form of the digits `ds` whose last one counts units of `10 ^ k`. -/
def positional (layout : Layout) (ds : List Char) (k : Int) : List Char :=
  if 0 ≤ k then
    ds ++ List.replicate k.toNat '0' ++ (if layout.keepsFraction then ['.', '0'] else [])
  else
    let places := (-k).toNat
    if places < ds.length then
      ds.take (ds.length - places) ++ '.' :: ds.drop (ds.length - places)
    else '0' :: '.' :: (List.replicate (places - ds.length) '0' ++ ds)

/-- One digit, the others after a point, and the exponent of the first. -/
def scientific (layout : Layout) (ds : List Char) (exponent : Int) : List Char :=
  let mantissa := match ds with
    | [] => []
    | [d] => [d]
    | d :: rest => d :: '.' :: rest
  let sign := if exponent < 0 then ['-'] else if layout.signsExponent then ['+'] else []
  mantissa ++ 'e' :: (sign ++ digits exponent.natAbs)

def magnitude (layout : Layout) (index : Nat) : List Char :=
  if index = 0 then layout.positional ['0'] 0
  else
    let d := Shortest.ofIndex layout.tie index
    let ds := digits d.coefficient
    let trimmed := (ds.reverse.dropWhile (· == '0')).reverse
    let k := d.exponent + (ds.length - trimmed.length : Nat)
    let exponent := k + trimmed.length - 1
    if layout.isPositional exponent then layout.positional trimmed k
    else layout.scientific trimmed exponent

/-- A finite number; the sign is written also for the negative zero. -/
def finite (layout : Layout) (negative : Bool) (index : Nat) : String :=
  String.ofList ((if negative then ['-'] else []) ++ layout.magnitude index)

end Layout
end ManifestDiff
