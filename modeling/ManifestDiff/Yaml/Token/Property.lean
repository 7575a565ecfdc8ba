import ManifestDiff.Number.Numeral
import ManifestDiff.Yaml.Token.Cursor
/-!
# Anchors, tags and directives

The tokens that begin with `&`, `*`, `!` and `%`. Escapes in a tag are bytes, and a NUL among them
ends it.
-/
namespace ManifestDiff.Yaml.Cursor

def name (c : Cursor) : Except SyntaxError (String × Cursor) := do
  let (chars, rest) := c.next.span isWordChar
  rest.lookAhead 1
  let ended := match rest.peek? with
    | none => true
    | some char =>
      Quoting.isGap (some char) || char ∈ ['?', ':', ',', ']', '\x7d', '%', '@', '\x60']
  if chars.isEmpty || !ended then throw .badAnchor
  return (String.ofList chars, rest)

/-- A handle: `!`, `!!` or `!name!`. Without its closing mark it is the start of a suffix. -/
def tagHandle (c : Cursor) : Except SyntaxError (List Char × Cursor) :=
  if c.at? '!' then
    let (chars, rest) := c.next.span isWordChar
    if rest.at? '!' then .ok ('!' :: (chars ++ ['!']), rest.next) else .ok ('!' :: chars, rest)
  else .error .badTag

/-- The characters of a tag; the last three only in a tag between angle brackets. -/
def isTagChar (verbatim : Bool) (char : Char) : Bool :=
  isWordChar char ||
    char ∈ [';', '/', '?', ':', '@', '&', '=', '+', '$', '.', '%', '!', '~', '*', '\'', '(', ')'] ||
    (verbatim && char ∈ [',', '[', ']'])

def byte? (high low : Char) : Option UInt8 :=
  (Numeral.natural? 16 [high, low]).map UInt8.ofNat

def unescape : List Char → Option (List UInt8)
  | [] => some []
  | '%' :: high :: low :: rest => do return (← byte? high low) :: (← unescape rest)
  | '%' :: _ => none
  | char :: rest => do return (String.singleton char).toUTF8.toList ++ (← unescape rest)

/-- A tag or a part of one. Nothing may be written for it only if something stands before it, of
which the first character does not count. -/
def tagPart (verbatim : Bool) (before : List Char) (c : Cursor) :
    Except SyntaxError (Tag × Cursor) :=
  let (chars, rest) := c.span (isTagChar verbatim)
  if before.isEmpty && chars.isEmpty then .error .badTag
  else match unescape (before.tail ++ chars) with
    | some bytes =>
      if Tag.isFramed 0 bytes then .ok (⟨bytes.takeWhile (· != 0)⟩, rest) else .error .badTag
    | none => .error .badTag

/-- A tag: its handle and its suffix. The lone `!` is a suffix without a handle. -/
def tag (flow : Bool) (c : Cursor) : Except SyntaxError (Token × Cursor) := do
  let (token, rest) ←
    if c.rest[1]? == some '<' then do
      let (suffix, rest) ← (c.advance 2).tagPart true []
      if rest.at? '>' then pure (Token.tag "" suffix, rest.next) else throw .badTag
    else do
      let (handle, rest) ← c.tagHandle
      if 1 < handle.length && handle.getLast? == some '!' then
        let (suffix, rest) ← rest.tagPart false []
        pure (Token.tag (String.ofList handle) suffix, rest)
      else
        let (suffix, rest) ← rest.tagPart false handle
        pure (if suffix.bytes.isEmpty then Token.tag "" (.ofString "!") else .tag "!" suffix, rest)
  rest.lookAhead 1
  if Quoting.isGap rest.peek? || (flow && rest.at? ',') then return (token, rest)
  else throw .badTag

def versionNumber (c : Cursor) : Except SyntaxError (Nat × Cursor) :=
  let (ds, rest) := c.span Numeral.isDigit
  if ds.length ≤ 9 then
    match Numeral.natural? 10 ds with
    | some n => .ok (n, rest)
    | none => .error .badDirective
  else .error .badDirective

def directive (c : Cursor) : Except SyntaxError (Token × Cursor) := do
  let (word, rest) := c.next.span isWordChar
  if word.isEmpty || !Quoting.isGap rest.peek? then throw .badDirective
  let (token, rest) ←
    if word == "YAML".toList then do
      let (major, rest) ← rest.skipBlanks.versionNumber
      if rest.at? '.' then
        let (minor, rest) ← rest.next.versionNumber
        pure (Token.versionDirective major minor, rest)
      else throw .badDirective
    else if word == "TAG".toList then do
      let (handle, rest) ← rest.skipBlanks.tagHandle
      if handle != ['!'] && (handle.length < 2 || handle.getLast? != some '!') then
        throw .badDirective
      if !rest.peek?.any isSpaceOrTab then throw .badDirective
      let (replacement, rest) ← rest.skipBlanks.tagPart true []
      if !Quoting.isGap rest.peek? then throw .badDirective
      pure (Token.tagDirective (String.ofList handle) replacement, rest)
    else throw .badDirective
  return (token, ← rest.finishLine .badDirective)

end ManifestDiff.Yaml.Cursor
