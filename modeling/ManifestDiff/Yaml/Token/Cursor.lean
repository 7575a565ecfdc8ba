import ManifestDiff.Yaml.Quoting
import ManifestDiff.Yaml.Value
/-!
# Source text and tokens

The characters that a YAML text may consist of, and the tokens that it is cut into. The text is taken
in blocks of bytes; with one character that is not allowed the whole block is lost, and so is
everything after it.

A cursor is a place in a text: the characters that are left, and how far from the start of the text,
in bytes, and of its line, in characters, the place is. Loops over a text count down from
`Cursor.left`, so they always reach their end. What hangs on characters that are lost cannot be
read.
-/
namespace ManifestDiff.Yaml

def isReadable (c : Char) : Bool :=
  Quoting.isPrintable c || c == '\t' || c == '\r' || c.val == 0x85 || c.val == 0xfeff

/-- The characters up to the first block that is lost, and whether there is such a block. -/
structure Source where
  chars : List Char
  truncated : Bool
deriving Repr

namespace Source

def blockSize : Nat := 16384

/-- Reads character by character. The characters of the current block, last one first, are kept
apart from those before it until the block is complete. -/
def collect (before block : List Char) (size : Nat) : List Char → Source
  | [] => ⟨(block ++ before).reverse, false⟩
  | c :: rest =>
    let (before, block, size) :=
      if size + c.utf8Size ≤ blockSize then (before, block, size) else (block ++ before, [], 0)
    if isReadable c then collect before (c :: block) (size + c.utf8Size) rest
    else ⟨before.reverse, true⟩

def ofString (text : String) : Source := collect [] [] 0 text.toList

end Source

inductive Token where
  | streamEnd
  | versionDirective (major minor : Nat)
  | tagDirective (handle : String) (replacement : Tag)
  | documentStart
  | documentEnd
  | blockSequenceStart
  | blockMappingStart
  | blockEnd
  | flowSequenceStart
  | flowSequenceEnd
  | flowMappingStart
  | flowMappingEnd
  | blockEntry
  | flowEntry
  | key
  | value
  | alias (name : String)
  | anchor (name : String)
  | tag (handle : String) (suffix : Tag)
  | scalar (plain : Bool) (text : String)
deriving DecidableEq, Repr

inductive SyntaxError where
  | unreadableCharacter
  | misplacedEntry
  | misplacedKey
  | misplacedValue
  | missingValueMark
  | unexpectedCharacter
  | misplacedTab
  | badDirective
  | badAnchor
  | badTag
  | badBlockHeader
  | badEscape
  | unclosedQuote
  | unexpectedToken
  | incompatibleVersion
  | repeatedDirective
  | undefinedHandle
  | unknownAlias
  | tooDeep
  | tooManyAliases
  | tagMismatch
  | wideInteger
  | duplicateKey
deriving DecidableEq, Repr

def byteLength (chars : List Char) : Nat := chars.foldl (fun n char => n + char.utf8Size) 0

structure Cursor where
  rest : List Char
  length : Nat
  index : Nat
  line : Nat
  column : Nat
  truncated : Bool
deriving Repr

namespace Cursor

def start (source : Source) : Cursor :=
  ⟨source.chars, byteLength source.chars, 0, 0, 0, source.truncated⟩

def left (c : Cursor) : Nat := c.length - c.index + 1

def peek? (c : Cursor) : Option Char := c.rest.head?

def at? (c : Cursor) (char : Char) : Bool := c.rest.head? == some char

/-- The character after the next one is a gap, or there is none. -/
def gapAfter (c : Cursor) : Bool := Quoting.isGap c.rest[1]?

def lookAhead (c : Cursor) (n : Nat) : Except SyntaxError Unit :=
  if c.truncated && (c.rest.drop (n - 1)).isEmpty then .error .unreadableCharacter else .ok ()

def advance (c : Cursor) (n : Nat) : Cursor :=
  { c with
    rest := c.rest.drop n
    index := c.index + byteLength (c.rest.take n)
    column := c.column + n }

def next (c : Cursor) : Cursor := c.advance 1

def newLine (c : Cursor) (n : Nat) : Cursor :=
  { c.advance n with line := c.line + 1, column := 0 }

/-- Passes over a line end and tells the character that stands for it. -/
def lineEnd? (c : Cursor) : Option (Char × Cursor) :=
  match c.rest with
  | '\r' :: '\n' :: _ => some ('\n', c.newLine 2)
  | char :: _ =>
    if Quoting.isBreak char then
      some (if char.val == 0x2028 || char.val == 0x2029 then char else '\n', c.newLine 1)
    else none
  | [] => none

/-- The characters of the line up to the first that does not satisfy `p`. -/
def span (p : Char → Bool) (c : Cursor) : List Char × Cursor :=
  let chars := c.rest.takeWhile p
  (chars, c.advance chars.length)

def skipWhile (p : Char → Bool) (c : Cursor) : Cursor := (c.span p).2

def isSpaceOrTab (char : Char) : Bool := char == ' ' || char == '\t'

def skipBlanks (c : Cursor) : Cursor := c.skipWhile isSpaceOrTab

def skipByteOrderMark (c : Cursor) : Cursor :=
  if c.column == 0 && c.peek?.any (·.val == 0xfeff) then c.next else c

def skipComment (c : Cursor) : Cursor :=
  if c.at? '#' then c.skipWhile (!Quoting.isBreak ·) else c

def atLineEnd (c : Cursor) : Bool := c.rest.head?.all Quoting.isBreak

/-- The mark of the start or the end of a document, at the start of a line. -/
def atDocumentMark (c : Cursor) : Bool :=
  c.column == 0 && ("---".toList.isPrefixOf c.rest || "...".toList.isPrefixOf c.rest) &&
    Quoting.isGap c.rest[3]?

/-- What is left of the line may only be a comment; the place after it. -/
def finishLine (error : SyntaxError) (c : Cursor) : Except SyntaxError Cursor := do
  let c := c.skipBlanks.skipComment
  c.lookAhead 2
  if c.atLineEnd then
    return match c.lineEnd? with
      | some (_, next) => next
      | none => c
  else throw error

def isWordChar (char : Char) : Bool :=
  ('0' ≤ char && char ≤ '9') || ('A' ≤ char && char ≤ 'Z') || ('a' ≤ char && char ≤ 'z') ||
    char == '_' || char == '-'

end Cursor
end ManifestDiff.Yaml
