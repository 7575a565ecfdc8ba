import ManifestDiff.Number.Numeral
import ManifestDiff.Toml.Value
/-!
# TOML scalars

Booleans, numbers and dates: the values that end at the first character that cannot belong to them,
so that the whole word decides what it is. Single underscores may stand between the digits of a
number.
-/
namespace ManifestDiff.Toml

def ungroup? (isDigit : Char → Bool) : List Char → Option (List Char)
  | [] => none
  | [c] => if isDigit c then some [c] else none
  | c :: '_' :: rest => if isDigit c then (ungroup? isDigit rest).map (c :: ·) else none
  | c :: rest => if isDigit c then (ungroup? isDigit rest).map (c :: ·) else none

def wholeDigits? (cs : List Char) : Option (List Char) :=
  match ungroup? Numeral.isDigit cs with
  | some ('0' :: _ :: _) => none
  | digits => digits

def integerOf? (value : Int) : Option Value :=
  if Int64.minValue.toInt ≤ value && value ≤ Int64.maxValue.toInt then
    some (.integer (Int64.ofInt value))
  else none

def radixNumeral? (radix : Nat) (cs : List Char) : Option Value := do
  let digits ← ungroup? (Numeral.digitValue · < radix) cs
  integerOf? (Numeral.value radix 0 digits)

def integer? : List Char → Option Value
  | '0' :: 'x' :: cs => radixNumeral? 16 cs
  | '0' :: 'o' :: cs => radixNumeral? 8 cs
  | '0' :: 'b' :: cs => radixNumeral? 2 cs
  | cs => do
    let (negative, cs) := Numeral.sign cs
    let n : Int := Numeral.value 10 0 (← wholeDigits? cs)
    integerOf? (if negative then -n else n)

def isGrouped (c : Char) : Bool := Numeral.isDigit c || c == '_'

/-- The exponent part of a float without its underscores, empty when there is none. -/
def exponentPart? : List Char → Option (List Char)
  | [] => some []
  | c :: rest =>
    if c == 'e' || c == 'E' then
      let (negative, cs) := Numeral.sign rest
      (ungroup? Numeral.isDigit cs).map fun digits =>
        'e' :: ((if negative then ['-'] else []) ++ digits)
    else none

/-- A decimal numeral with a fraction or an exponent. One that is too large is refused, unless it is
negative. -/
def fractional? (cs : List Char) : Option Value := do
  let (negative, unsigned) := Numeral.sign cs
  let whole ← wholeDigits? (unsigned.takeWhile isGrouped)
  let (places, tail) ← match unsigned.dropWhile isGrouped with
    | '.' :: rest => do
      let places ← ungroup? Numeral.isDigit (rest.takeWhile isGrouped)
      pure ('.' :: places, rest.dropWhile isGrouped)
    | rest => if rest.isEmpty then none else some ([], rest)
  let exponent ← exponentPart? tail
  let x ← Numeral.decimal? ((if negative then ['-'] else []) ++ whole ++ places ++ exponent)
  if x == .infinite false then none else some (.float x)

def special? (cs : List Char) : Option Value :=
  let (negative, cs) := Numeral.sign cs
  if cs == ['i', 'n', 'f'] then some (.float (.infinite negative))
  else if cs == ['n', 'a', 'n'] then some (.float .nan)
  else none

/-- The number that two digits spell, if it lies between two bounds. -/
def twoDigits? (low high : Nat) (a b : Char) : Option Nat := do
  let n ← if Numeral.isDigit a && Numeral.isDigit b then Numeral.natural? 10 [a, b] else none
  if low ≤ n && n ≤ high then some n else none

def isLeapYear (year : Nat) : Bool := year % 4 == 0 && (year % 100 != 0 || year % 400 == 0)

def daysIn (year month : Nat) : Nat :=
  if month == 2 then if isLeapYear year then 29 else 28
  else if month == 4 || month == 6 || month == 9 || month == 11 then 30
  else 31

def date? : List Char → Option (List Char)
  | y₁ :: y₂ :: y₃ :: y₄ :: '-' :: m₁ :: m₂ :: '-' :: d₁ :: d₂ :: rest => do
    let year ← if [y₁, y₂, y₃, y₄].all Numeral.isDigit then Numeral.natural? 10 [y₁, y₂, y₃, y₄]
      else none
    let month ← twoDigits? 1 12 m₁ m₂
    let _ ← twoDigits? 1 (daysIn year month) d₁ d₂
    return rest
  | _ => none

/-- A time of the day, which may be a leap second, and what follows it. -/
def time? : List Char → Option (List Char)
  | h₁ :: h₂ :: ':' :: m₁ :: m₂ :: ':' :: s₁ :: s₂ :: rest => do
    let _ ← twoDigits? 0 23 h₁ h₂
    let _ ← twoDigits? 0 59 m₁ m₂
    let _ ← twoDigits? 0 60 s₁ s₂
    match rest with
    | '.' :: c :: rest =>
      if Numeral.isDigit c then some (rest.dropWhile Numeral.isDigit) else none
    | rest => some rest
  | _ => none

def isOffset : List Char → Bool
  | ['Z'] => true
  | ['z'] => true
  | [sign, h₁, h₂, ':', m₁, m₂] =>
    (sign == '+' || sign == '-') && (twoDigits? 0 23 h₁ h₂).isSome && (twoDigits? 0 59 m₁ m₂).isSome
  | _ => false

def isDate (cs : List Char) : Bool := date? cs == some []

def isTimeOfDate (cs : List Char) : Bool :=
  (time? cs).any fun rest => rest.isEmpty || isOffset rest

/-- A date, a time, or a date and a time with a letter between them. -/
def isDatetime (cs : List Char) : Bool :=
  match date? cs with
  | some [] => true
  | some (c :: rest) => (c == 'T' || c == 't') && isTimeOfDate rest
  | none => time? cs == some []

def scalar? (word : List Char) : Option Value :=
  if word == "true".toList then some (.boolean true)
  else if word == "false".toList then some (.boolean false)
  else if isDatetime word then some (.datetime (String.ofList word))
  else (integer? word).or ((fractional? word).or (special? word))

end ManifestDiff.Toml
