import ManifestDiff.Number.Numeral
import ManifestDiff.Yaml.Token.Cursor
/-!
# Scalar tokens

The text of plain, quoted and block scalars. Between the words of a plain or quoted scalar a single
line end is a space, further line ends are kept, and blanks around them are dropped. Text that is
being collected is kept with its last character first.
-/
namespace ManifestDiff.Yaml.Cursor

/-- What stands between two words: the blanks before the first line end, and the line ends. After an
escaped line end there is no first one but still a new line. -/
structure Gap where
  blanks : List Char
  first : Option Char
  more : List Char
  newLine : Bool

namespace Gap

def empty (newLine : Bool) : Gap := ⟨[], none, [], newLine⟩

def text (gap : Gap) : List Char :=
  if gap.newLine then
    match gap.first with
    | some '\n' => if gap.more.isEmpty then [' '] else gap.more
    | some char => char :: gap.more
    | none => gap.more
  else gap.blanks

def addBlank (gap : Gap) (char : Char) : Gap :=
  if gap.newLine then gap else { gap with blanks := gap.blanks ++ [char] }

def addBreak (gap : Gap) (char : Char) : Gap :=
  if gap.newLine then { gap with more := gap.more ++ [char] }
  else ⟨[], some char, [], true⟩

end Gap

/-- Passes over a gap. A tab in the indentation of a plain scalar, left of `tabLimit`, is refused.
-/
def gap (tabLimit : Nat) : Nat → Gap → Cursor → Except SyntaxError (Gap × Cursor)
  | 0, found, c => .ok (found, c)
  | fuel + 1, found, c =>
    match c.lineEnd? with
    | some (char, next) => gap tabLimit fuel (found.addBreak char) next
    | none =>
      match c.peek? with
      | some char =>
        if isSpaceOrTab char then
          if found.newLine && c.column < tabLimit && char == '\t' then .error .misplacedTab
          else gap tabLimit fuel (found.addBlank char) c.next
        else .ok (found, c)
      | none => (c.lookAhead 1).map fun _ => (found, c)

def anyGap (tabLimit : Nat) (newLine : Bool) (c : Cursor) : Except SyntaxError (Gap × Cursor) :=
  gap tabLimit c.left (.empty newLine) c

def isFlowMark (char : Char) : Bool :=
  char == ',' || char == '[' || char == ']' || char == '\x7b' || char == '\x7d'

/-- The characters up to the end of a word of a plain scalar. In a flow collection a colon may not
stand before a flow mark or a question mark. -/
def plainWord (flow : Bool) : List Char → Except SyntaxError (List Char)
  | [] => .ok []
  | char :: rest =>
    if Quoting.isGap (some char) then .ok []
    else if flow && char == ':' && rest.head?.any (fun d => isFlowMark d || d == '?') then
      .error .unexpectedCharacter
    else if char == ':' && Quoting.isGap rest.head? then .ok []
    else if flow && isFlowMark char then .ok []
    else return char :: (← plainWord flow rest)

/-- The words of a plain scalar that begin here, with the text so far and the gap after it. -/
def plainWords (flow : Bool) (indent : Nat) :
    Nat → List Char → Gap → Cursor → Except SyntaxError (List Char × Bool × Cursor)
  | 0, text, found, c => .ok (text, found.newLine, c)
  | fuel + 1, text, found, c => do
    c.lookAhead 4
    if c.atDocumentMark || c.at? '#' then return (text, found.newLine, c)
    else
      let word ← plainWord flow c.rest
      let (text, found, c) :=
        if word.isEmpty then (text, found, c)
        else (word.reverse ++ found.text.reverse ++ text, Gap.empty false, c.advance word.length)
      c.lookAhead 2
      if c.peek?.any fun char => isSpaceOrTab char || Quoting.isBreak char then
        let (found, c) ← gap indent c.left found c
        if !flow && c.column < indent then return (text, found.newLine, c)
        else plainWords flow indent fuel text found c
      else return (text, found.newLine, c)

/-- A plain scalar whose further lines are indented at least this far: its text, whether a line end
follows it, and the place behind what follows it. -/
def plainScalar (flow : Bool) (indent : Nat) (c : Cursor) :
    Except SyntaxError (String × Bool × Cursor) := do
  let (text, newLine, rest) ←
    plainWords flow indent c.left [] (.empty false) c
  return (String.ofList text.reverse, newLine, rest)

def hexNumber? (width : Nat) (chars : List Char) : Option Nat :=
  if width ≤ chars.length then Numeral.natural? 16 (chars.take width) else none

/-- The character of an escape and the number of characters it takes, the backslash included. -/
def escape (chars : List Char) : Except SyntaxError (Char × Nat) :=
  let coded (width : Nat) (digits : List Char) : Except SyntaxError (Char × Nat) :=
    match hexNumber? width digits with
    | some n =>
      if n.isValidChar then .ok (Char.ofNat n, width + 2) else .error .badEscape
    | none => .error .badEscape
  match chars with
  | '\\' :: char :: rest =>
    match char with
    | '0' => .ok ('\x00', 2)
    | 'a' => .ok ('\x07', 2)
    | 'b' => .ok ('\x08', 2)
    | 't' | '\t' => .ok ('\t', 2)
    | 'n' => .ok ('\n', 2)
    | 'v' => .ok ('\x0b', 2)
    | 'f' => .ok ('\x0c', 2)
    | 'r' => .ok ('\r', 2)
    | 'e' => .ok ('\x1b', 2)
    | ' ' => .ok (' ', 2)
    | '"' => .ok ('"', 2)
    | '/' => .ok ('/', 2)
    | '\\' => .ok ('\\', 2)
    | 'N' => .ok (Char.ofNat 0x85, 2)
    | '_' => .ok (Char.ofNat 0xa0, 2)
    | 'L' => .ok (Char.ofNat 0x2028, 2)
    | 'P' => .ok (Char.ofNat 0x2029, 2)
    | 'x' => coded 2 rest
    | 'u' => coded 4 rest
    | 'U' => coded 8 rest
    | _ => .error .badEscape
  | _ => .error .badEscape

/-- A word of a quoted scalar. The word ends at a blank, at a line end, at the
closing quote, or at an escaped line end, which is passed over and told. -/
def quotedWord (single : Bool) :
    Nat → List Char → Cursor → Except SyntaxError (List Char × Bool × Cursor)
  | 0, word, c => .ok (word, false, c)
  | fuel + 1, word, c =>
    if Quoting.isGap c.peek? then .ok (word, false, c)
    else if single then
      match c.rest with
      | '\'' :: '\'' :: _ => quotedWord single fuel ('\'' :: word) (c.advance 2)
      | '\'' :: _ => .ok (word, false, c)
      | char :: _ => quotedWord single fuel (char :: word) c.next
      | [] => .ok (word, false, c)
    else if c.at? '"' then .ok (word, false, c)
    else if c.at? '\\' then
      match c.next.lineEnd? with
      | some (_, rest) => .ok (word, true, rest)
      | none => do
        let (char, width) ← escape c.rest
        quotedWord single fuel (char :: word) (c.advance width)
    else
      match c.peek? with
      | some char => quotedWord single fuel (char :: word) c.next
      | none => .ok (word, false, c)

def quotedWords (single : Bool) :
    Nat → List Char → Cursor → Except SyntaxError (List Char × Cursor)
  | 0, _, _ => .error .unclosedQuote
  | fuel + 1, text, c => do
    c.lookAhead 4
    if c.atDocumentMark || c.rest.isEmpty then throw .unclosedQuote
    else
      let (word, newLine, c) ← quotedWord single c.left [] c
      c.lookAhead (if newLine then 1 else 2)
      let text := word ++ text
      if c.at? (if single then '\'' else '"') then return (text, c.next)
      else
        let (found, c) ← c.anyGap 0 newLine
        quotedWords single fuel (found.text.reverse ++ text) c

def quotedScalar (single : Bool) (c : Cursor) : Except SyntaxError (String × Cursor) := do
  let (text, rest) ← quotedWords single c.left [] c.next
  return (String.ofList text.reverse, rest)

inductive Chomping where
  | strip
  | clip
  | keep
deriving DecidableEq, Repr

/-- The marks after the indicator of a block scalar, in either order. -/
def blockHeader (c : Cursor) : Except SyntaxError (Chomping × Nat × Cursor) :=
  let chomping (c : Cursor) : Chomping × Cursor :=
    if c.at? '+' then (.keep, c.next) else if c.at? '-' then (.strip, c.next) else (.clip, c)
  let increment (c : Cursor) : Except SyntaxError (Nat × Cursor) :=
    match c.peek? with
    | some char =>
      if !Numeral.isDigit char then .ok (0, c)
      else if char == '0' then .error .badBlockHeader
      else .ok (Numeral.digitValue char, c.next)
    | none => .ok (0, c)
  if c.at? '+' || c.at? '-' then do
    let (mode, c) := chomping c
    let (n, c) ← increment c
    return (mode, n, c)
  else do
    let (n, c) ← increment c
    if n == 0 then return (.clip, 0, c)
    else
      let (mode, c) := chomping c
      return (mode, n, c)

/-- The empty lines before a line of a block scalar: their line ends, and the widest indentation
among them and of that line. The indentation zero stands for one that is not known yet. -/
def emptyLines (indent : Nat) :
    Nat → List Char → Nat → Cursor → Except SyntaxError (List Char × Nat × Cursor)
  | 0, breaks, widest, c => .ok (breaks, widest, c)
  | fuel + 1, breaks, widest, c => do
    let start := if indent == 0 then c.rest else c.rest.take (indent - c.column)
    let c := c.advance (start.takeWhile (· == ' ')).length
    c.lookAhead 1
    let widest := max widest c.column
    if (indent == 0 || c.column < indent) && c.at? '\t' then throw .misplacedTab
    else match c.lineEnd? with
      | some (char, next) => emptyLines indent fuel (breaks ++ [char]) widest next
      | none => return (breaks, widest, c)

/-- The lines of a block scalar. Kept are the text so far, the line end after it, the empty lines
after that, and whether the last line began with a blank. -/
def blockLines (literal : Bool) (indent : Nat) :
    Nat → List Char → List Char → List Char → Bool → Cursor →
      Except SyntaxError (List Char × List Char × List Char × Cursor)
  | 0, text, lineEnd, empties, _, c => .ok (text, lineEnd, empties, c)
  | fuel + 1, text, lineEnd, empties, afterBlank, c =>
    if c.column != indent || c.rest.isEmpty then .ok (text, lineEnd, empties, c)
    else do
      let startsBlank := c.peek?.any isSpaceOrTab
      let joined :=
        if !literal && lineEnd == ['\n'] && !afterBlank && !startsBlank then
          if empties.isEmpty then [' '] else []
        else lineEnd
      let (line, c) := c.span (!Quoting.isBreak ·)
      let (lineEnd, c) := match c.lineEnd? with
        | some (char, next) => ([char], next)
        | none => ([], c)
      let text := line.reverse ++ empties.reverse ++ joined.reverse ++ text
      let (empties, _, c) ← emptyLines indent c.left [] 0 c
      blockLines literal indent fuel text lineEnd empties startsBlank c

/-- A block scalar in a collection with this indentation, negative outside of all collections. -/
def blockScalar (literal : Bool) (parent : Int) (c : Cursor) :
    Except SyntaxError (String × Cursor) := do
  let (mode, increment, c) ← c.next.blockHeader
  let c ← c.finishLine .badBlockHeader
  let given := if increment == 0 then 0 else parent.toNat + increment
  let (empties, widest, c) ← emptyLines given c.left [] 0 c
  let indent := if given == 0 then max widest (max (parent + 1).toNat 1) else given
  let (text, lineEnd, empties, c) ←
    blockLines literal indent c.left [] [] empties false c
  let tail := match mode with
    | .strip => []
    | .clip => lineEnd
    | .keep => lineEnd ++ empties
  return (String.ofList (text.reverse ++ tail), c)

end ManifestDiff.Yaml.Cursor
