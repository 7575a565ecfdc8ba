import ManifestDiff.Yaml.Plain
/-!
# Written strings

How a string is written in YAML. A string of several lines is written as a literal block, one that
would be read as something else is quoted, and every other one is plain; where a style cannot hold
the string the next one does, and the double-quoted style holds every string. Lines are never
folded.
-/
namespace ManifestDiff.Yaml

inductive Style where
  | plain
  | singleQuoted
  | doubleQuoted
  | literal
deriving DecidableEq, Repr

namespace Quoting

def isBreak (c : Char) : Bool :=
  c == '\n' || c == '\r' || c.val == 0x85 || c.val == 0x2028 || c.val == 0x2029

/-- A place next to which an indicator counts: a space, a tab, a line end, or no character at all.
-/
def isGap : Option Char → Bool
  | none => true
  | some c => c == ' ' || c == '\t' || c.val == 0 || isBreak c

def isPrintable (c : Char) : Bool :=
  let n := c.val
  n == 0xa || (0x20 ≤ n && n ≤ 0x7e) || (0xa0 ≤ n && n ≤ 0xd7ff) ||
    (0xe000 ≤ n && n ≤ 0xfffd && n != 0xfeff) || 0x10000 ≤ n

def isReserved (c : Char) : Bool :=
  c ∈ ['#', ',', '[', ']', '\x7b', '\x7d', '&', '*', '!', '|', '>', '\'', '"', '%', '@', '\x60']

/-- An indicator after the first character: a colon before a gap or a number sign after one. -/
def hasInnerIndicator : Char → List Char → Bool
  | _, [] => false
  | before, c :: rest =>
    (c == ':' && isGap rest.head?) || (c == '#' && isGap (some before)) ||
      hasInnerIndicator c rest

/-- A character or a pair of characters that would not be read as text in a plain scalar. -/
def hasIndicator : List Char → Bool
  | [] => false
  | c :: rest =>
    "---".toList.isPrefixOf (c :: rest) || "...".toList.isPrefixOf (c :: rest) || isReserved c ||
      ((c == '?' || c == ':' || c == '-') && isGap rest.head?) || hasInnerIndicator c rest

/-- Some neighbours of which the first satisfies `p` and the second `q`. -/
def hasPair (p q : Char → Bool) : List Char → Bool
  | a :: b :: rest => (p a && q b) || hasPair p q (b :: rest)
  | _ => false

def isSpace (c : Char) : Bool := c == ' '

/-- Characters that no style but the double-quoted one can hold. -/
def needsEscape (cs : List Char) : Bool :=
  cs.any (!isPrintable ·) || hasPair isSpace isBreak cs

def fitsPlain (cs : List Char) : Bool :=
  !needsEscape cs && !cs.any isBreak && !hasIndicator cs &&
    !cs.head?.any isSpace && !cs.getLast?.any isSpace

def fitsSingleQuoted (cs : List Char) : Bool :=
  !needsEscape cs && !hasPair isBreak isSpace cs

def fitsLiteral (cs : List Char) : Bool :=
  !needsEscape cs && !cs.isEmpty && !cs.getLast?.any isSpace

/-- Whether a plain scalar with this text would be read as the text. -/
def readsAsText (cs : List Char) : Bool :=
  Plain.read cs == .text && !Plain.isPaddedDigits cs

def style (cs : List Char) : Style :=
  if cs.contains '\n' then
    if fitsLiteral cs then .literal else .doubleQuoted
  else if readsAsText cs && fitsPlain cs then .plain
  else if fitsSingleQuoted cs then .singleQuoted
  else .doubleQuoted

/-- A quote is written twice, and a line end is followed by the indentation. -/
def singleQuoted (indent : Nat) (atLineStart : Bool) : List Char → List Char
  | [] => if atLineStart then List.replicate indent ' ' else []
  | c :: rest =>
    if isBreak c then c :: singleQuoted indent true rest
    else
      (if atLineStart then List.replicate indent ' ' else []) ++
        (if c == '\'' then ['\'', '\''] else [c]) ++ singleQuoted indent false rest

def hexDigit (n : Nat) : Char :=
  if n < 10 then Char.ofNat (n + 48) else Char.ofNat (n + 55)

def hex : (width n : Nat) → List Char
  | 0, _ => []
  | width + 1, n => hex width (n / 16) ++ [hexDigit (n % 16)]

def shortEscape? (c : Char) : Option Char :=
  match c.toNat with
  | 0x0 => some '0'
  | 0x7 => some 'a'
  | 0x8 => some 'b'
  | 0x9 => some 't'
  | 0xa => some 'n'
  | 0xb => some 'v'
  | 0xc => some 'f'
  | 0xd => some 'r'
  | 0x1b => some 'e'
  | 0x22 => some '"'
  | 0x5c => some '\\'
  | 0x85 => some 'N'
  | 0x2028 => some 'L'
  | 0x2029 => some 'P'
  | _ => none

def escape (c : Char) : List Char :=
  match shortEscape? c with
  | some letter => ['\\', letter]
  | none =>
    if isPrintable c then [c]
    else if c.toNat ≤ 0xff then '\\' :: 'x' :: hex 2 c.toNat
    else if c.toNat ≤ 0xffff then '\\' :: 'u' :: hex 4 c.toNat
    else '\\' :: 'U' :: hex 8 c.toNat

/-- The mark after the bar of a literal block: the indentation when the first line starts with a
blank, and what becomes of the line ends at the end. -/
def literalMark (cs : List Char) : List Char :=
  (if cs.head?.any (fun c => c == ' ' || isBreak c) then ['2'] else []) ++
    match cs.reverse with
    | [] => ['-']
    | [c] => if isBreak c then ['+'] else ['-']
    | c :: d :: _ => if !isBreak c then ['-'] else if isBreak d then ['+'] else []

/-- The lines of a literal block; an empty line is not indented. -/
def literalLines (indent : Nat) (atLineStart : Bool) : List Char → List Char
  | [] => []
  | c :: rest =>
    if isBreak c then c :: literalLines indent true rest
    else
      (if atLineStart then List.replicate indent ' ' else []) ++
        c :: literalLines indent false rest

/-- The string as it is written where further lines are indented this far. -/
def write (indent : Nat) (s : String) : List Char :=
  let cs := s.toList
  match style cs with
  | .plain => cs
  | .singleQuoted => '\'' :: (singleQuoted indent false cs ++ ['\''])
  | .doubleQuoted => '"' :: (cs.flatMap escape ++ ['"'])
  | .literal => '|' :: (literalMark cs ++ '\n' :: literalLines indent true cs)

end Quoting
end ManifestDiff.Yaml
