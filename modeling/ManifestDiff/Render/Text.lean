import ManifestDiff.Diff.Event
import ManifestDiff.Render.Palette
import ManifestDiff.Render.Writer
import ManifestDiff.Yaml.Block
/-!
# Text reports

Events as indented lines. The marks are `+` for an addition, `-` for a removal, `~` before the
differences of a value, `~~` and `~>` for an old and a new value, and `!` for a structural change
between identity lists of different length.

An unchanged value is listed as an indented block. A scalar under a key stands on the line of the
key; a nested collection starts on the next line, one level deeper. An item of a list is introduced
by a dash on a line of its own.
-/
namespace ManifestDiff

def indentation (depth : Nat) : String := String.ofList (List.replicate (2 * depth) ' ')

def indented (depth : Nat) (text : String) : String := indentation depth ++ text ++ "\n"

namespace Node

mutual

def listing (depth : Nat) : Node → String
  | .mapping entries => listingEntries depth entries
  | .list items => listingItems depth items
  | .scalar value => indented depth value.display

def listingEntries (depth : Nat) : List (String × Node) → String
  | [] => ""
  | (k, .scalar value) :: rest =>
    indented depth (k ++ ": " ++ value.display) ++ listingEntries depth rest
  | (k, v) :: rest =>
    indented depth (k ++ ":") ++ listing (depth + 1) v ++ listingEntries depth rest

def listingItems (depth : Nat) : List Node → String
  | [] => ""
  | v :: rest => indented depth "-" ++ listing (depth + 1) v ++ listingItems depth rest

end

mutual

def writeListing (depth : Nat) : Node → Writing Unit
  | .mapping entries => writeEntries depth entries
  | .list items => writeItems depth items
  | .scalar value => Writing.line [indentation depth, value.display]

def writeEntries (depth : Nat) : List (String × Node) → Writing Unit
  | [] => pure ()
  | (k, .scalar value) :: rest => do
    Writing.line [indentation depth, k, ": ", value.display]
    writeEntries depth rest
  | (k, v) :: rest => do
    Writing.line [indentation depth, k, ":"]
    writeListing (depth + 1) v
    writeEntries depth rest

def writeItems (depth : Nat) : List Node → Writing Unit
  | [] => pure ()
  | v :: rest => do
    Writing.line [indentation depth, "-"]
    writeListing (depth + 1) v
    writeItems depth rest

end

end Node

namespace TextReport

/-- A line with a label stands at the depth of the parent. -/
def labelDepth (path : Path) : Nat := path.depth - 1

def label (path : Path) : String :=
  match path.getLast? with
  | some (.key key) => key
  | some (.index i) => (Segment.index i).display
  | some (.identity label id) => label ++ " '" ++ id ++ "'"
  | none => ""

/-- A painted line; the indentation is not painted. -/
def painted (palette : Palette) (depth : Nat) (tone : Tone) (text : String) : String :=
  indented depth (palette tone text)

def unchanged (path : Path) (value : Node) : String :=
  match value with
  | .scalar scalar => indented (labelDepth path) (label path ++ ": " ++ scalar.display)
  | value =>
    indented (labelDepth path) (label path ++ ":") ++ value.listing (labelDepth path + 1)

/-- The header of a nested value; an index has no mark. -/
def nestedText (path : Path) : String :=
  match path.getLast? with
  | some (.index i) => (Segment.index i).display ++ ":"
  | _ => "~ " ++ label path ++ ":"

/-- The mark, the taint and the rest of the line are painted one by one. -/
def structural (palette : Palette) (path : Path) (tone : Tone) (mark : String) (value : Node)
    (tainted : Bool) : String :=
  indented (labelDepth path)
    (palette tone (mark ++ " ") ++ (if tainted then palette .taint "! " else "") ++
      palette tone (label path ++ ": " ++ value.summary))

/-- The old and the new value on a line each; both lines begin with the same text after the mark. -/
def replacement (palette : Palette) (depth : Nat) (start : String) (old new : Node) : String :=
  painted palette depth .modification ("~~ " ++ start ++ old.summary) ++
    painted palette depth .modification ("~> " ++ start ++ new.summary)

def lines (palette : Palette) : Event → String
  | .objectRemoved object =>
    painted palette 0 .removal ("- " ++ object.title ++ " (removed)")
  | .objectAdded object =>
    painted palette 0 .addition ("+ " ++ object.title ++ " (added)")
  | .objectHeader _ => "\n" ++ indented 0 "---"
  | .sectionHeader path =>
    painted palette (labelDepth path) .modification (label path ++ ":")
  | .unchanged path value => unchanged path value
  | .added path value =>
    painted palette (labelDepth path) .addition ("+ " ++ label path ++ ": " ++ value.summary)
  | .removed path value =>
    painted palette (labelDepth path) .removal ("- " ++ label path ++ ": " ++ value.summary)
  | .nested path => painted palette (labelDepth path) .modification (nestedText path)
  | .modified path (some key) old new =>
    replacement palette (labelDepth path) (key ++ ": ") old new
  | .modified path none old new => replacement palette path.depth "" old new
  | .structuralAddition path _ value tainted =>
    structural palette path .addition "+" value tainted
  | .structuralRemoval path _ value tainted =>
    structural palette path .removal "-" value tainted

def writePainted (palette : Palette) (depth : Nat) (tone : Tone) (text : String) : Writing Unit :=
  Writing.line [indentation depth, palette tone text]

def writeUnchanged (path : Path) (value : Node) : Writing Unit :=
  match value with
  | .scalar scalar =>
    Writing.line [indentation (labelDepth path), label path ++ ": " ++ scalar.display]
  | value => do
    Writing.line [indentation (labelDepth path), label path ++ ":"]
    value.writeListing (labelDepth path + 1)

def writeStructural (palette : Palette) (path : Path) (tone : Tone) (mark : String) (value : Node)
    (tainted : Bool) : Writing Unit :=
  Writing.line [indentation (labelDepth path), palette tone (mark ++ " ") ++
    (if tainted then palette .taint "! " else "") ++
    palette tone (label path ++ ": " ++ value.summary)]

/-- Writes the lines of an event one by one, up to the first that fails. -/
def write (palette : Palette) : Event → Writing Unit
  | .objectRemoved object =>
    writePainted palette 0 .removal ("- " ++ object.title ++ " (removed)")
  | .objectAdded object =>
    writePainted palette 0 .addition ("+ " ++ object.title ++ " (added)")
  | .objectHeader _ => do
    Writing.line []
    Writing.line [indentation 0, "---"]
  | .sectionHeader path =>
    writePainted palette (labelDepth path) .modification (label path ++ ":")
  | .unchanged path value => writeUnchanged path value
  | .added path value =>
    writePainted palette (labelDepth path) .addition
      ("+ " ++ label path ++ ": " ++ value.summary)
  | .removed path value =>
    writePainted palette (labelDepth path) .removal
      ("- " ++ label path ++ ": " ++ value.summary)
  | .nested path => writePainted palette (labelDepth path) .modification (nestedText path)
  | .modified path (some key) old new => do
    writePainted palette (labelDepth path) .modification ("~~ " ++ key ++ ": " ++ old.summary)
    writePainted palette (labelDepth path) .modification ("~> " ++ key ++ ": " ++ new.summary)
  | .modified path none old new => do
    writePainted palette path.depth .modification ("~~ " ++ old.summary)
    writePainted palette path.depth .modification ("~> " ++ new.summary)
  | .structuralAddition path _ value tainted =>
    writeStructural palette path .addition "+" value tainted
  | .structuralRemoval path _ value tainted =>
    writeStructural palette path .removal "-" value tainted

end TextReport
end ManifestDiff
