import ManifestDiff.Toml.Scalar
import ManifestDiff.Toml.Text
/-!
# TOML documents

A document is a sequence of statements: entries, headers of tables and headers of tables that are
collected in an array. Values nest less than eighty levels deep. An entry belongs to the table of
the last header before it, and a table stands where the document comes to its header.
-/
namespace ManifestDiff.Toml

inductive Statement where
  | entry (key : List String) (value : Value)
  | header (key : List String)
  | arrayHeader (key : List String)
deriving Inhabited

/-- What follows spacing, line ends and comments that end with their line. -/
def skipComments : Nat → List Char → List Char
  | 0, cs => cs
  | fuel + 1, cs =>
    match skipLines cs with
    | '#' :: rest =>
      match rest.dropWhile isTextChar with
      | [] => '#' :: rest
      | after => if (lineEnd? after).isSome then skipComments fuel after else '#' :: rest
    | rest => rest

def skipGap (cs : List Char) : List Char := skipComments cs.length cs

def endsWord (c : Char) : Bool :=
  isSpacing c || c == '\n' || c == '\r' || c == '#' || c == ',' || c == ']' || c == '\x7d'

def splitWord (cs : List Char) : List Char × List Char :=
  (cs.takeWhile (!endsWord ·), cs.dropWhile (!endsWord ·))

/-- A value of one word. A date and the time after it may be two words with a space between them. -/
def wordValue? (cs : List Char) : Option (Value × List Char) := do
  let (word, rest) := splitWord cs
  let value ← scalar? word
  match rest with
  | ' ' :: after =>
    let (second, rest') := splitWord after
    if isDate word && isTimeOfDate second then
      some (.datetime (String.ofList (word ++ ' ' :: second)), rest')
    else some (value, rest)
  | rest => some (value, rest)

abbrev ValueReader := List Char → Option (Value × List Char)

def arrayItems? (value? : ValueReader) : Nat → List Char → Option (List Value × List Char)
  | 0, _ => none
  | fuel + 1, cs =>
    match skipGap cs with
    | ']' :: rest => some ([], rest)
    | cs => do
      let (item, rest) ← value? cs
      match skipGap rest with
      | ',' :: rest => do
        let (items, rest) ← arrayItems? value? fuel rest
        return (item :: items, rest)
      | ']' :: rest => return ([item], rest)
      | _ => none

def keyValue? (value? : ValueReader) (cs : List Char) :
    Option ((List String × Value) × List Char) := do
  let (key, rest) ← key? cs
  match rest with
  | '=' :: rest => do
    let (value, rest) ← value? (skipSpacing rest)
    return ((key, value), rest)
  | _ => none

/-- The keys and values of an inline table, from behind its brace or a comma. -/
def tableEntries? (value? : ValueReader) :
    Nat → List Char → Option (List (List String × Value) × List Char)
  | 0, _ => none
  | fuel + 1, cs => do
    let (entry, rest) ← keyValue? value? cs
    match skipSpacing rest with
    | ',' :: rest => do
      let (entries, rest) ← tableEntries? value? fuel rest
      return (entry :: entries, rest)
    | '\x7d' :: rest => return ([entry], rest)
    | _ => none

def inlineTable? (value? : ValueReader) (cs : List Char) : Option (Value × List Char) :=
  match skipSpacing cs with
  | '\x7d' :: rest => some (.table .inline [], rest)
  | _ => do
    let (entries, rest) ← tableEntries? value? cs.length cs
    return (.table .inline (← Entries.assignAll? .inline [] entries), rest)

/-- A value in which arrays and inline tables nest at most this many levels deep. -/
def nestedValue? : Nat → List Char → Option (Value × List Char)
  | 0, cs =>
    if cs.head?.any fun c => c == '"' || c == '\'' then
      (string? cs).map fun (s, rest) => (.string s, rest)
    else wordValue? cs
  | depth + 1, cs =>
    match cs with
    | '[' :: rest =>
      (arrayItems? (nestedValue? depth) (rest.length + 1) rest).map fun (items, rest) =>
        (.array items, rest)
    | '\x7b' :: rest => inlineTable? (nestedValue? depth) rest
    | cs => nestedValue? 0 cs

def value? (cs : List Char) : Option (Value × List Char) := nestedValue? 79 cs

def header? : List Char → Option (Statement × List Char)
  | '[' :: '[' :: cs => do
    match ← key? cs with
    | (key, ']' :: ']' :: rest) => some (.arrayHeader key, rest)
    | _ => none
  | '[' :: cs => do
    match ← key? cs with
    | (key, ']' :: rest) => some (.header key, rest)
    | _ => none
  | _ => none

def statement? (cs : List Char) : Option (Statement × List Char) :=
  if cs.head? == some '[' then header? cs
  else (keyValue? value? cs).map fun ((key, value), rest) => (.entry key value, rest)

def statementsFrom? : Nat → List Char → Option (List Statement)
  | 0, _ => none
  | fuel + 1, cs =>
    match skipGap cs with
    | [] => some []
    | '#' :: rest => if (rest.dropWhile isTextChar).isEmpty then some [] else none
    | cs => do
      let (statement, rest) ← statement? cs
      return statement :: (← statementsFrom? fuel (← finishLine? rest))

/-- The statements of a text, which may begin with a byte order mark. -/
def statements? (text : String) : Option (List Statement) :=
  let cs := match text.toList with
    | '\ufeff' :: rest => rest
    | cs => cs
  statementsFrom? (cs.length + 1) cs

structure Section where
  inArray : Bool
  path : List String
  entries : List (List String × Value)

def sections : List Statement → List (List String × Value) × List Section
  | [] => ([], [])
  | .entry key value :: rest =>
    let (entries, others) := sections rest
    ((key, value) :: entries, others)
  | .header path :: rest =>
    let (entries, others) := sections rest
    ([], ⟨false, path, entries⟩ :: others)
  | .arrayHeader path :: rest =>
    let (entries, others) := sections rest
    ([], ⟨true, path, entries⟩ :: others)

/-- The table of a section. It takes over what was implied of it, but a table that was introduced in
another way is not defined again. -/
def Section.addTable? (part : Section) (key : String) (entries : Entries) : Option Entries := do
  let before ← match entries.find? key with
    | none => some []
    | some (.table .implied inner) => some inner
    | some _ => none
  let inner ← Entries.assignAll? .header before part.entries
  return entries.erase key ++ [(key, .table .header inner)]

/-- The table of a section at the end of its array, which may be new. -/
def Section.addToArray? (part : Section) (key : String) (entries : Entries) : Option Entries := do
  let table : Value := .table .header (← Entries.assignAll? .header [] part.entries)
  match entries.find? key with
  | none => return entries ++ [(key, .tables [table])]
  | some (.tables items) => return entries.replace key (.tables (items ++ [table]))
  | some _ => none

def Section.addTo? (part : Section) (root : Entries) : Option Entries := do
  let key ← part.path.getLast?
  Entries.modifyAt false
    (fun _ entries =>
      if part.inArray then part.addToArray? key entries else part.addTable? key entries)
    .header root part.path.dropLast

/-- The entries of the table that a document is, or nothing when the text is not TOML. -/
def read? (text : String) : Option Entries := do
  let (entries, parts) := sections (← statements? text)
  let root ← Entries.assignAll? .header [] entries
  parts.foldlM (fun root part => part.addTo? root) root

end ManifestDiff.Toml
