import ManifestDiff.Number.Numeral
/-!
# TOML text

Blanks, line ends, comments, strings and keys. A reader takes what it reads from the start of the
text and gives back what follows. Escapes stand only in strings with double quotes.
-/
namespace ManifestDiff.Toml

def isSpacing (c : Char) : Bool := c == ' ' || c == '\t'

/-- A character that may stand in comments and strings: no control character but the tab. -/
def isTextChar (c : Char) : Bool := c == '\t' || (' ' ≤ c && c != '\x7f')

def skipSpacing (cs : List Char) : List Char := cs.dropWhile isSpacing

def lineEnd? : List Char → Option (List Char)
  | '\n' :: rest => some rest
  | '\r' :: '\n' :: rest => some rest
  | _ => none

/-- What is left of the line is blank up to a comment; what follows the line. -/
def finishLine? (cs : List Char) : Option (List Char) :=
  let cs := match skipSpacing cs with
    | '#' :: rest => rest.dropWhile isTextChar
    | rest => rest
  if cs.isEmpty then some [] else lineEnd? cs

def skipLines : List Char → List Char
  | '\r' :: '\n' :: rest => skipLines rest
  | c :: rest => if isSpacing c || c == '\n' then skipLines rest else c :: rest
  | [] => []

theorem length_skipLines_le (cs : List Char) : (skipLines cs).length ≤ cs.length := by
  fun_induction skipLines cs <;> grind

def codedChar? (width : Nat) (cs : List Char) : Option Char := do
  let digits := cs.take width
  let n ← if digits.length == width then Numeral.natural? 16 digits else none
  if n.isValidChar then some (Char.ofNat n) else none

/-- The character of an escape, and how many characters after the backslash spell it. -/
def escape? : List Char → Option (Char × Nat)
  | 'b' :: _ => some ('\x08', 1)
  | 't' :: _ => some ('\t', 1)
  | 'n' :: _ => some ('\n', 1)
  | 'f' :: _ => some ('\x0c', 1)
  | 'r' :: _ => some ('\r', 1)
  | '"' :: _ => some ('"', 1)
  | '\\' :: _ => some ('\\', 1)
  | 'u' :: rest => (codedChar? 4 rest).map (·, 5)
  | 'U' :: rest => (codedChar? 8 rest).map (·, 9)
  | _ => none

/-- The rest of a string on one line, from behind its opening quote. -/
def lineText (quote : Char) : List Char → Option (List Char × List Char)
  | [] => none
  | c :: rest =>
    if c == quote then some ([], rest)
    else if c == '\\' && quote == '"' then
      match escape? rest with
      | some (char, width) =>
        (lineText quote (rest.drop width)).map fun (text, after) => (char :: text, after)
      | none => none
    else if isTextChar c then
      (lineText quote rest).map fun (text, after) => (c :: text, after)
    else none
termination_by cs => cs.length

/-- The rest of a string in triple quotes. Fewer than three quotes in a row belong to the text, and
so do one or two quotes before the closing ones. A backslash at the end of a line removes the line
end and the blanks after it. -/
def blockText (quote : Char) : List Char → Option (List Char × List Char)
  | [] => none
  | c :: rest =>
    if c == quote then
      let quotes := (rest.takeWhile (· == quote)).length + 1
      let after := rest.drop (quotes - 1)
      if quotes < 3 then
        (blockText quote after).map fun (text, after) =>
          (List.replicate quotes quote ++ text, after)
      else if quotes ≤ 5 then some (List.replicate (quotes - 3) quote, after)
      else none
    else if c == '\\' && quote == '"' then
      if (lineEnd? (skipSpacing rest)).isSome then blockText quote (skipLines rest)
      else
        match escape? rest with
        | some (char, width) =>
          (blockText quote (rest.drop width)).map fun (text, after) => (char :: text, after)
        | none => none
    else if c == '\n' || (c == '\r' && rest.head? == some '\n') then
      (blockText quote (if c == '\n' then rest else rest.drop 1)).map fun (text, after) =>
        ('\n' :: text, after)
    else if isTextChar c then
      (blockText quote rest).map fun (text, after) => (c :: text, after)
    else none
termination_by cs => cs.length
decreasing_by
  all_goals try have := length_skipLines_le rest
  all_goals grind

def lineString? : List Char → Option (String × List Char)
  | quote :: rest =>
    if quote == '"' || quote == '\'' then
      (lineText quote rest).map fun (text, after) => (String.ofList text, after)
    else none
  | [] => none

/-- A string of either kind. A line end right after three opening quotes is not part of the text. -/
def string? : List Char → Option (String × List Char)
  | a :: b :: c :: rest =>
    if (a == '"' || a == '\'') && a == b && b == c then
      (blockText a ((lineEnd? rest).getD rest)).map fun (text, after) => (String.ofList text, after)
    else lineString? (a :: b :: c :: rest)
  | cs => lineString? cs

def isKeyChar (c : Char) : Bool :=
  ('0' ≤ c && c ≤ '9') || ('A' ≤ c && c ≤ 'Z') || ('a' ≤ c && c ≤ 'z') || c == '_' || c == '-'

def keyPart? (cs : List Char) : Option (String × List Char) :=
  if cs.head?.any fun c => c == '"' || c == '\'' then lineString? cs
  else
    let word := cs.takeWhile isKeyChar
    if word.isEmpty then none else some (String.ofList word, cs.dropWhile isKeyChar)

/-- The parts of a key between its dots, at most this many, with what follows the spacing after it.
-/
def keyParts? : Nat → List Char → Option (List String × List Char)
  | 0, _ => none
  | limit + 1, cs => do
    let (name, after) ← keyPart? (skipSpacing cs)
    match skipSpacing after with
    | '.' :: rest => do
      let (names, after) ← keyParts? limit rest
      return (name :: names, after)
    | rest => return ([name], rest)

def key? (cs : List Char) : Option (List String × List Char) := keyParts? 79 cs

end ManifestDiff.Toml
