import ManifestDiff.Number.Numeral
/-!
# YAML values

The value of one YAML document once its aliases are followed and its plain scalars are resolved.
The keys of a mapping are values of any kind, and only local tags (`!name`) are kept. A tag is bytes,
because its escapes may spell bytes that are not text.
-/
namespace ManifestDiff.Yaml

structure Tag where
  bytes : List UInt8
deriving DecidableEq, Repr

namespace Tag

def ofString (text : String) : Tag := ⟨text.toUTF8.data.toList⟩

def append (front rest : Tag) : Tag := ⟨front.bytes ++ rest.bytes⟩

def text? (tag : Tag) : Option String := String.fromUTF8? ⟨tag.bytes.toArray⟩

def isLocal (tag : Tag) : Bool := tag.bytes.head? == some 0x21

/-- The name of a local tag, if it is text: what follows the `!`. The lone `!` names itself. -/
def localName? (tag : Tag) : Option String :=
  match tag.text?.map String.toList with
  | some ['!'] => some "!"
  | some ('!' :: name) => some (String.ofList name)
  | _ => none

/-- The number of bytes after the first byte of a character, by its highest bits. -/
def following? (lead : UInt8) : Option Nat :=
  if lead &&& 0x80 == 0 then some 0
  else if lead &&& 0xe0 == 0xc0 then some 1
  else if lead &&& 0xf0 == 0xe0 then some 2
  else if lead &&& 0xf8 == 0xf0 then some 3
  else none

/-- Each first byte of a character has the right number of bytes after it; `pending` of them are
still to come. What character they spell, if any, does not matter. -/
def isFramed : (pending : Nat) → List UInt8 → Bool
  | pending, [] => pending == 0
  | 0, lead :: rest =>
    match following? lead with
    | some n => isFramed n rest
    | none => false
  | pending + 1, byte :: rest => byte &&& 0xc0 == 0x80 && isFramed pending rest

end Tag

inductive Value where
  | null
  | bool (b : Bool)
  | number (n : Number)
  | string (s : String)
  | sequence (items : List Value)
  | mapping (entries : List (Value × Value))
  | tagged (tag : String) (value : Value)
deriving Inhabited

/-- The name a local tag is compared by: a leading `!` does not count unless it is all there is. -/
def tagName (tag : String) : List Char :=
  match tag.toList with
  | ['!'] => ['!']
  | '!' :: rest => rest
  | cs => cs

namespace Value

def untag : Value → Value
  | .tagged _ value => untag value
  | value => value

def isNull (value : Value) : Bool :=
  match value.untag with
  | .null => true
  | _ => false

mutual

/-- Equality of values, by which duplicate keys are found: mappings agree when they have the same
number of entries and every entry of one is an entry of the other. -/
def equal : Value → Value → Bool
  | .null, .null => true
  | .bool a, .bool b => a == b
  | .number m, .number n => m.equal n
  | .string a, .string b => a == b
  | .sequence xs, .sequence ys => equalItems xs ys
  | .mapping xs, .mapping ys => xs.length == ys.length && includedIn xs ys
  | .tagged s v, .tagged t w => tagName s == tagName t && equal v w
  | _, _ => false

def equalItems : List Value → List Value → Bool
  | [], [] => true
  | v :: xs, w :: ys => equal v w && equalItems xs ys
  | _, _ => false

def includedIn : List (Value × Value) → List (Value × Value) → Bool
  | [], _ => true
  | (k, v) :: xs, ys => (ys.any fun (l, w) => equal k l && equal v w) && includedIn xs ys

end

end Value
end ManifestDiff.Yaml
