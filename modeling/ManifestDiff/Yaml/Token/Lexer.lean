import ManifestDiff.Yaml.Token.Property
import ManifestDiff.Yaml.Token.Scalar
/-!
# From text to tokens

The tokens of a text, in order. Outside of flow collections a column to the right of the current
indentation opens a block collection and one to the left closes those it leaves. A key without a
question mark is recognised by the colon after it, so the place of its first token is remembered; it
has to be on one line and at most 1024 bytes long. An error takes away the tokens from the first one
on that might still have become such a key.
-/
namespace ManifestDiff.Yaml

structure SimpleKey where
  /-- Nothing but a key can stand in this column. -/
  required : Bool
  position : Nat
  index : Nat
  line : Nat
  column : Nat
deriving Repr

structure Lexer where
  cursor : Cursor
  tokens : Array Token
  /-- For the block context and each open flow collection, the innermost first, the token that may
  start a key. -/
  simpleKeys : List (Option SimpleKey)
  simpleKeyAllowed : Bool
  /-- The column of the innermost block collection, or a negative number. -/
  indent : Int
  outerIndents : List Int

namespace Lexer

def start (source : Source) : Lexer := ⟨.start source, #[], [none], true, -1, []⟩

def inFlow (l : Lexer) : Bool := 1 < l.simpleKeys.length

def push (l : Lexer) (token : Token) : Lexer := { l with tokens := l.tokens.push token }

def pushMark (l : Lexer) (token : Token) (width : Nat) : Lexer :=
  { l with tokens := l.tokens.push token, cursor := l.cursor.advance width }

def allowSimpleKey (l : Lexer) (allowed : Bool) : Lexer := { l with simpleKeyAllowed := allowed }

def closeBlocks (column : Int) : List Int → Lexer → Lexer
  | outer :: outers, l =>
    if column < l.indent then
      closeBlocks column outers { l.push .blockEnd with indent := outer, outerIndents := outers }
    else l
  | [], l => l

def unindent (l : Lexer) (column : Int) : Lexer :=
  if l.inFlow then l else closeBlocks column l.outerIndents l

/-- Opens a block collection in a column to the right of the current one. Its start goes before the
tokens from this position on. -/
def openBlock (l : Lexer) (column position : Nat) (token : Token) : Lexer :=
  if !l.inFlow && l.indent < column then
    { l with
      indent := column
      outerIndents := l.indent :: l.outerIndents
      tokens := l.tokens.insertIdxIfInBounds position token }
  else l

def isStale (l : Lexer) (key : SimpleKey) : Bool :=
  key.line < l.cursor.line || key.index + 1024 < l.cursor.index

/-- The tokens before the first one that may still turn out to start a key. -/
def settled (l : Lexer) : Array Token :=
  let keys := (l.simpleKeys.filterMap id).filter (!l.isStale ·)
  l.tokens.take (keys.foldl (fun n key => min n key.position) l.tokens.size)

def forgetStaleKeys (l : Lexer) : Except SyntaxError Lexer := do
  let keys ← l.simpleKeys.mapM fun key? =>
    match key? with
    | some key =>
      if l.isStale key then
        if key.required then .error .missingValueMark else .ok none
      else .ok (some key)
    | none => .ok none
  return { l with simpleKeys := keys }

def forgetKey (l : Lexer) : Except SyntaxError Lexer :=
  match l.simpleKeys with
  | some key :: keys =>
    if key.required then .error .missingValueMark else .ok { l with simpleKeys := none :: keys }
  | _ => .ok l

def saveKey (l : Lexer) : Except SyntaxError Lexer := do
  if l.simpleKeyAllowed then
    let l ← l.forgetKey
    let key : SimpleKey :=
      { required := !l.inFlow && l.indent == l.cursor.column
        position := l.tokens.size
        index := l.cursor.index
        line := l.cursor.line
        column := l.cursor.column }
    return { l with simpleKeys := some key :: l.simpleKeys.tail }
  else return l

/-- Passes over blanks, comments, line ends and a byte order mark on each line. Tabs count as blanks
where no key may start. -/
def skipToToken : Nat → Lexer → Lexer
  | 0, l => l
  | fuel + 1, l =>
    let tabs := l.inFlow || !l.simpleKeyAllowed
    let c := l.cursor.skipByteOrderMark.skipWhile fun char =>
      char == ' ' || (tabs && char == '\t')
    let c := c.skipComment
    match c.lineEnd? with
    | some (_, next) =>
      skipToToken fuel
        { l with cursor := next, simpleKeyAllowed := l.simpleKeyAllowed || !l.inFlow }
    | none => { l with cursor := c }

def documentMark (l : Lexer) (token : Token) : Except SyntaxError Lexer := do
  let l ← (l.unindent (-1)).forgetKey
  return (l.allowSimpleKey false).pushMark token 3

def directive (l : Lexer) : Except SyntaxError Lexer := do
  let l ← (l.unindent (-1)).forgetKey
  let (token, rest) ← l.cursor.directive
  return { l.allowSimpleKey false with tokens := l.tokens.push token, cursor := rest }

def openFlow (l : Lexer) (token : Token) : Except SyntaxError Lexer := do
  let l ← l.saveKey
  return ({ l with simpleKeys := none :: l.simpleKeys }.allowSimpleKey true).pushMark token 1

def closeFlow (l : Lexer) (token : Token) : Except SyntaxError Lexer := do
  let l ← l.forgetKey
  let keys := if l.inFlow then l.simpleKeys.tail else l.simpleKeys
  return ({ l with simpleKeys := keys }.allowSimpleKey false).pushMark token 1

def flowEntry (l : Lexer) : Except SyntaxError Lexer := do
  let l ← l.forgetKey
  return (l.allowSimpleKey true).pushMark .flowEntry 1

/-- In a block context the mark has to be where a key may start, and opens the collection. -/
def blockMark (l : Lexer) (opening : Token) (error : SyntaxError) : Except SyntaxError Lexer :=
  if l.inFlow then .ok l
  else if l.simpleKeyAllowed then .ok (l.openBlock l.cursor.column l.tokens.size opening)
  else .error error

def blockEntry (l : Lexer) : Except SyntaxError Lexer := do
  let l ← (← l.blockMark .blockSequenceStart .misplacedEntry).forgetKey
  return (l.allowSimpleKey true).pushMark .blockEntry 1

def key (l : Lexer) : Except SyntaxError Lexer := do
  let l ← (← l.blockMark .blockMappingStart .misplacedKey).forgetKey
  return (l.allowSimpleKey !l.inFlow).pushMark .key 1

def value (l : Lexer) : Except SyntaxError Lexer := do
  match l.simpleKeys with
  | some key :: keys =>
    let l := { l with
      simpleKeys := none :: keys
      tokens := l.tokens.insertIdxIfInBounds key.position .key }
    let l := l.openBlock key.column key.position .blockMappingStart
    return (l.allowSimpleKey false).pushMark .value 1
  | _ =>
    let l ← l.blockMark .blockMappingStart .misplacedValue
    return (l.allowSimpleKey !l.inFlow).pushMark .value 1

def anchorOrAlias (l : Lexer) (token : String → Token) : Except SyntaxError Lexer := do
  let l ← l.saveKey
  let (name, rest) ← l.cursor.name
  return { l.allowSimpleKey false with tokens := l.tokens.push (token name), cursor := rest }

def tag (l : Lexer) : Except SyntaxError Lexer := do
  let l ← l.saveKey
  let (token, rest) ← l.cursor.tag l.inFlow
  return { l.allowSimpleKey false with tokens := l.tokens.push token, cursor := rest }

def blockScalar (l : Lexer) (literal : Bool) : Except SyntaxError Lexer := do
  let l ← l.forgetKey
  let (text, rest) ← l.cursor.blockScalar literal l.indent
  return { (l.push (.scalar false text)).allowSimpleKey true with cursor := rest }

def quotedScalar (l : Lexer) (single : Bool) : Except SyntaxError Lexer := do
  let l ← l.saveKey
  let (text, rest) ← l.cursor.quotedScalar single
  return { (l.push (.scalar false text)).allowSimpleKey false with cursor := rest }

def plainScalar (l : Lexer) : Except SyntaxError Lexer := do
  let l ← l.saveKey
  let (text, newLine, rest) ← l.cursor.plainScalar l.inFlow (l.indent + 1).toNat
  return { (l.push (.scalar true text)).allowSimpleKey newLine with cursor := rest }

def token (l : Lexer) (char : Char) : Except SyntaxError Lexer :=
  let c := l.cursor
  if c.column == 0 && char == '%' then l.directive
  else if c.atDocumentMark then
    l.documentMark (if char == '-' then .documentStart else .documentEnd)
  else match char with
    | '[' => l.openFlow .flowSequenceStart
    | '\x7b' => l.openFlow .flowMappingStart
    | ']' => l.closeFlow .flowSequenceEnd
    | '\x7d' => l.closeFlow .flowMappingEnd
    | ',' => l.flowEntry
    | '*' => l.anchorOrAlias .alias
    | '&' => l.anchorOrAlias .anchor
    | '!' => l.tag
    | '\'' => l.quotedScalar true
    | '"' => l.quotedScalar false
    | '-' => if c.gapAfter then l.blockEntry else l.plainScalar
    | '?' => if l.inFlow || c.gapAfter then l.key else l.plainScalar
    | ':' => if l.inFlow || c.gapAfter then l.value else l.plainScalar
    | '|' => if l.inFlow then .error .unexpectedCharacter else l.blockScalar true
    | '>' => if l.inFlow then .error .unexpectedCharacter else l.blockScalar false
    | '#' | '%' | '@' | '\x60' => .error .unexpectedCharacter
    | _ =>
      if Quoting.isGap (some char) then .error .unexpectedCharacter else l.plainScalar

def finish (l : Lexer) : Except SyntaxError Lexer := do
  let l ← (l.unindent (-1)).forgetKey
  return (l.allowSimpleKey false).push .streamEnd

/-- Adds what closes blocks here and the token that comes next. Up to four characters tell what it
is. -/
def step (l : Lexer) : Except SyntaxError Lexer := do
  let l ← (skipToToken l.cursor.left l).forgetStaleKeys
  let l := l.unindent l.cursor.column
  l.cursor.lookAhead 4
  match l.cursor.peek? with
  | some char => l.token char
  | none => l.finish

/-- The tokens from here on, added to those before them. An error ends the list. -/
def run : Nat → Lexer → Array Token × Option SyntaxError
  | 0, l => (l.tokens, none)
  | fuel + 1, l =>
    match l.step with
    | .ok next =>
      if next.tokens.back? == some .streamEnd then (next.tokens, none)
      else run fuel next
    | .error error => (l.settled, some error)

end Lexer

/-- The tokens of a text, and the error that ends them unless the last one is the end of the
stream. -/
def tokens (text : String) : List Token × Option SyntaxError :=
  let source := Source.ofString text
  let (tokens, error) := (Lexer.start source).run (source.chars.length + 1)
  (tokens.toList, error)

end ManifestDiff.Yaml
