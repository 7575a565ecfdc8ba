import ManifestDiff.Yaml.Token.Cursor
import ManifestDiff.Yaml.Value
/-!
# Document trees

The structure of one YAML document before its aliases are followed and its scalars are read, and how
it is built from tokens. The handles of tags are replaced. The names of anchors are resolved while
the tree is built: the slot of an anchor is the number of distinct names before it, and a slot that
is used again stands for its latest node.
-/
namespace ManifestDiff.Yaml

inductive Tree where
  | alias (slot : Nat)
  | scalar (tag : Option Tag) (plain : Bool) (text : String)
  | sequence (tag : Option Tag) (items : List Tree)
  | mapping (tag : Option Tag) (entries : List (Tree × Tree))
deriving Inhabited

/-- The tree of a document with the nodes that aliases stand for. -/
structure Document where
  root : Tree
  anchored : List (Nat × Tree)
  size : Nat
deriving Inhabited

structure Builder where
  tokens : List Token
  error : SyntaxError
  handles : List (String × Tag)
  names : List (String × Nat)
  slots : List (Nat × Nat)
  nodes : List (Nat × Tree)
  size : Nat

abbrev Build := StateT Builder (Except SyntaxError)

namespace Build

def peek : Build Token := do
  match (← get).tokens with
  | token :: _ => return token
  | [] => throw (← get).error

def skip : Build Unit := modify fun b => { b with tokens := b.tokens.tail }

def nextIn (tokens : List Token) : Build Bool := return tokens.contains (← peek)

def count (n : Nat) : Build Unit := modify fun b => { b with size := b.size + n }

def distinctNames (names : List (String × Nat)) : Nat := (names.map Prod.fst).eraseDups.length

/-- Gives an anchor its slot, and its node the next serial number. -/
def declare (anchor : Option String) : Build (Option Nat) := do
  match anchor with
  | none => return none
  | some name =>
    let b ← get
    let slot := distinctNames b.names
    let serial := b.slots.length
    set { b with names := (name, slot) :: b.names, slots := (slot, serial) :: b.slots }
    return some serial

def keep (serial : Option Nat) (tree : Tree) : Build Tree := do
  if let some serial := serial then
    modify fun b => { b with nodes := (serial, tree) :: b.nodes }
  return tree

def aliasOf (name : String) : Build Tree := do
  match (← get).names.lookup name with
  | some slot => count 1; return .alias slot
  | none => throw .unknownAlias

def completeTag (handle : String) (suffix : Tag) : Build Tag := do
  if handle == "" then return suffix
  match (← get).handles.lookup handle with
  | some replacement => return replacement.append suffix
  | none => throw .undefinedHandle

def properties : Build (Option String × Option Tag) := do
  match ← peek with
  | .anchor name =>
    skip
    match ← peek with
    | .tag handle suffix => skip; return (some name, some (← completeTag handle suffix))
    | _ => return (some name, none)
  | .tag handle suffix =>
    skip
    match ← peek with
    | .anchor name => skip; return (some name, some (← completeTag handle suffix))
    | _ => return (none, some (← completeTag handle suffix))
  | _ => return (none, none)

def emptyScalar : Build Tree := do
  count 1
  return .scalar none true ""

mutual

/-- A node. Block collections only count where `block` is set, and a sequence without indentation
where `indentless` is. -/
def node (block indentless : Bool) : Nat → Build Tree
  | 0 => throw .tooDeep
  | fuel + 1 => do
    if let .alias name ← peek then
      skip
      return ← aliasOf name
    let (anchor, tag) ← properties
    match ← peek, block with
    | .scalar plain text, _ =>
      skip
      count 1
      keep (← declare anchor) (.scalar tag plain text)
    | .flowSequenceStart, _ => do
      count 2
      let serial ← declare anchor
      skip
      let items ← flowItems true fuel
      keep serial (.sequence tag items)
    | .flowMappingStart, _ => do
      count 2
      let serial ← declare anchor
      skip
      let entries ← flowEntries true fuel
      keep serial (.mapping tag entries)
    | .blockSequenceStart, true => do
      count 2
      let serial ← declare anchor
      skip
      let items ← blockItems fuel
      keep serial (.sequence tag items)
    | .blockMappingStart, true => do
      count 2
      let serial ← declare anchor
      skip
      let entries ← blockEntries fuel
      keep serial (.mapping tag entries)
    | token, _ =>
      if indentless && token == .blockEntry then
        count 2
        let serial ← declare anchor
        let items ← indentlessItems fuel
        keep serial (.sequence tag items)
      else if anchor.isSome || tag.isSome then
        count 1
        keep (← declare anchor) (.scalar tag true "")
      else throw .unexpectedToken

def blockItems : Nat → Build (List Tree)
  | 0 => throw .tooDeep
  | fuel + 1 => do
    match ← peek with
    | .blockEntry =>
      skip
      let item ← if ← nextIn [.blockEntry, .blockEnd] then emptyScalar else node true false fuel
      return item :: (← blockItems fuel)
    | .blockEnd => skip; return []
    | _ => throw .unexpectedToken

/-- The items of a sequence at the indentation of the mapping around it. -/
def indentlessItems : Nat → Build (List Tree)
  | 0 => throw .tooDeep
  | fuel + 1 => do
    match ← peek with
    | .blockEntry =>
      skip
      let item ←
        if ← nextIn [.blockEntry, .key, .value, .blockEnd] then emptyScalar
        else node true false fuel
      return item :: (← indentlessItems fuel)
    | _ => return []

def blockEntries : Nat → Build (List (Tree × Tree))
  | 0 => throw .tooDeep
  | fuel + 1 => do
    match ← peek with
    | .key =>
      skip
      let key ←
        if ← nextIn [.key, .value, .blockEnd] then emptyScalar else node true true fuel
      let value ← match ← peek with
        | .value => do
          skip
          if ← nextIn [.key, .value, .blockEnd] then emptyScalar else node true true fuel
        | _ => emptyScalar
      return (key, value) :: (← blockEntries fuel)
    | .blockEnd => skip; return []
    | _ => throw .unexpectedToken

/-- The items of a flow sequence, up to its end. A pair is a mapping of one entry. -/
def flowItems (first : Bool) : Nat → Build (List Tree)
  | 0 => throw .tooDeep
  | fuel + 1 => do
    if (← peek) == .flowSequenceEnd then
      skip
      return []
    if !first then
      if (← peek) == .flowEntry then skip else throw .unexpectedToken
    match ← peek with
    | .key =>
      skip
      count 2
      let key ←
        if ← nextIn [.value, .flowEntry, .flowSequenceEnd] then
          skip
          emptyScalar
        else node false false fuel
      let value ← match ← peek with
        | .value => do
          skip
          if ← nextIn [.flowEntry, .flowSequenceEnd] then emptyScalar else node false false fuel
        | _ => emptyScalar
      return .mapping none [(key, value)] :: (← flowItems false fuel)
    | .flowSequenceEnd => skip; return []
    | _ => do
      let item ← node false false fuel
      return item :: (← flowItems false fuel)

def flowEntries (first : Bool) : Nat → Build (List (Tree × Tree))
  | 0 => throw .tooDeep
  | fuel + 1 => do
    if (← peek) == .flowMappingEnd then
      skip
      return []
    if !first then
      if (← peek) == .flowEntry then skip else throw .unexpectedToken
    match ← peek with
    | .key =>
      skip
      let key ←
        if ← nextIn [.value, .flowEntry, .flowMappingEnd] then emptyScalar
        else node false false fuel
      let value ← match ← peek with
        | .value => do
          skip
          if ← nextIn [.flowEntry, .flowMappingEnd] then emptyScalar else node false false fuel
        | _ => emptyScalar
      return (key, value) :: (← flowEntries false fuel)
    | .flowMappingEnd => skip; return []
    | _ => do
      let key ← node false false fuel
      let value ← emptyScalar
      return (key, value) :: (← flowEntries false fuel)

end

def defaultHandles : List (String × Tag) :=
  [("!", .ofString "!"), ("!!", .ofString "tag:yaml.org,2002:")]

def directives (versioned : Bool) (handles : List (String × Tag)) : Nat → Build Unit
  | 0 => throw .tooDeep
  | fuel + 1 => do
    match ← peek with
    | .versionDirective major minor =>
      skip
      if versioned then throw .repeatedDirective
      if major != 1 || !(minor == 1 || minor == 2) then throw .incompatibleVersion
      directives true handles fuel
    | .tagDirective handle replacement =>
      skip
      if (handles.lookup handle).isSome then throw .repeatedDirective
      directives versioned ((handle, replacement) :: handles) fuel
    | _ => modify fun b => { b with handles := handles ++ defaultHandles }

def isDirective : Token → Bool
  | .versionDirective .. | .tagDirective .. => true
  | _ => false

def skipDocumentEnds : Nat → Build Unit
  | 0 => throw .tooDeep
  | fuel + 1 => do
    if (← peek) == .documentEnd then
      skip
      skipDocumentEnds fuel

/-- The next document, if there is one. Only the first one may begin without a mark. -/
def document? (first : Bool) (fuel : Nat) : Build (Option Document) := do
  modify fun b => { b with names := [], slots := [], nodes := [], size := 0 }
  if !first then skipDocumentEnds fuel
  let token ← peek
  if token == .streamEnd then return none
  let root ←
    if first && !isDirective token && token != .documentStart then do
      modify fun b => { b with handles := defaultHandles }
      node true false fuel
    else do
      directives false [] fuel
      if (← peek) == .documentStart then skip else throw .unexpectedToken
      let token ← peek
      if isDirective token || [.documentStart, .documentEnd, .streamEnd].contains token then
        emptyScalar
      else node true false fuel
  if (← peek) == .documentEnd then skip
  let b ← get
  let anchored := b.slots.filterMap fun (slot, serial) =>
    (b.nodes.lookup serial).map fun tree => (slot, tree)
  return some ⟨root, anchored, b.size⟩

/-- The documents from here on. An error stands for the document it is found in and ends the
list. -/
def documents (size : Nat) : (first : Bool) → Nat → Builder → List (Except SyntaxError Document)
  | _, 0, _ => []
  | first, fuel + 1, b =>
    match (document? first size).run b with
    | .error error => [.error error]
    | .ok (none, _) => []
    | .ok (some document, b) => .ok document :: documents size false fuel b

end Build

/-- The documents of a list of tokens that is ended by an error or the end of the stream. -/
def documentsOf (tokens : List Token) (error : Option SyntaxError) :
    List (Except SyntaxError Document) :=
  let size := 3 * tokens.length + 10
  Build.documents size true size
    ⟨tokens, error.getD .unexpectedToken, [], [], [], [], 0⟩

end ManifestDiff.Yaml
