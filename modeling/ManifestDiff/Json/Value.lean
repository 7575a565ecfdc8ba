import ManifestDiff.Number.Numeral
import ManifestDiff.Number.Layout
/-!
# JSON values and their compact text

A value is written without any blank. The members of an object are written in the order of the list
that holds them. A string is quoted with the short escapes where JSON has one, the other control
characters as `\u00xx`, and everything else as it is.
-/
namespace ManifestDiff.Json

inductive Value where
  | null
  | bool (b : Bool)
  | number (n : Number)
  | string (s : String)
  | array (items : List Value)
  | object (members : List (String × Value))
deriving Inhabited

/-- Exponents start at 16 and below -5, a whole number ends in `.0`, and exponents are signed. -/
def layout : Layout := ⟨.even, some (-5), some 15, true, true⟩

def numberText : Number → String
  | .natural n => toString n.toNat
  | .negative i => toString i.toInt
  | .float (.finite negative index) => layout.finite negative index
  | .float _ => "null"

/-- The hexadecimal digit of a number below sixteen, in lower case. -/
def hexDigit (n : Nat) : Char :=
  if n < 10 then Char.ofNat (n + 48) else Char.ofNat (n + 87)

def escape (c : Char) : List Char :=
  if c == '"' then ['\\', '"']
  else if c == '\\' then ['\\', '\\']
  else if c == '\n' then ['\\', 'n']
  else if c == '\r' then ['\\', 'r']
  else if c == '\t' then ['\\', 't']
  else if c.val == 0x8 then ['\\', 'b']
  else if c.val == 0xc then ['\\', 'f']
  else if c.val < 0x20 then
    ['\\', 'u', '0', '0', hexDigit (c.toNat / 16), hexDigit (c.toNat % 16)]
  else [c]

def quote (s : String) : String :=
  String.ofList ('"' :: (s.toList.flatMap escape ++ ['"']))

namespace Value

mutual

def text : Value → String
  | .null => "null"
  | .bool b => if b then "true" else "false"
  | .number n => numberText n
  | .string s => quote s
  | .array items => "[" ++ textItems items ++ "]"
  | .object members => "\x7b" ++ textMembers members ++ "\x7d"

def textItems : List Value → String
  | [] => ""
  | [v] => text v
  | v :: rest => text v ++ "," ++ textItems rest

def textMembers : List (String × Value) → String
  | [] => ""
  | [(k, v)] => quote k ++ ":" ++ text v
  | (k, v) :: rest => quote k ++ ":" ++ text v ++ "," ++ textMembers rest

end

end Value
end ManifestDiff.Json
