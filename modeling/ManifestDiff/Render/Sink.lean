import ManifestDiff.Diff.Differ
import ManifestDiff.Diff.Event
import ManifestDiff.Render.Text
import ManifestDiff.Render.Writer
/-!
# JSON reports

Events as JSON objects, one on a line. The first member names the event, the others are its parts.
-/

/-!
# Renderers

The sinks that write a report. The state of such a sink is the writer.
-/
namespace ManifestDiff.JsonReport

def pathMember (path : Path) : String × Json.Value := ("path", .string path.display)

def objectEvent (name : String) (object : ObjectKey) : Json.Value :=
  .object [("event", .string name), ("object", .string object.display)]

def headerEvent (name : String) (path : Path) : Json.Value :=
  .object [("event", .string name), pathMember path]

def valueEvent (name : String) (path : Path) (value : Node) : Json.Value :=
  .object [("event", .string name), pathMember path, ("value", value.toJson)]

def structuralEvent (name : String) (path : Path) (identity : String) (value : Node)
    (tainted : Bool) : Json.Value :=
  .object [("event", .string name), pathMember path, ("identity", .string identity),
    ("value", value.toJson), ("tainted", .bool tainted)]

/-- The object of an event; a key that is not there is left out. -/
def toJson : Event → Json.Value
  | .objectRemoved object => objectEvent "object_removed" object
  | .objectAdded object => objectEvent "object_added" object
  | .objectHeader object => objectEvent "object_header" object
  | .sectionHeader path => headerEvent "section" path
  | .unchanged path value => valueEvent "unchanged" path value
  | .added path value => valueEvent "added" path value
  | .removed path value => valueEvent "removed" path value
  | .nested path => headerEvent "nested" path
  | .modified path key old new =>
    .object ([("event", .string "modified"), pathMember path] ++
      (match key with
        | some key => [("key", .string key)]
        | none => []) ++
      [("old", old.toJson), ("new", new.toJson)])
  | .structuralAddition path identity value tainted =>
    structuralEvent "structural_addition" path identity value tainted
  | .structuralRemoval path identity value tainted =>
    structuralEvent "structural_removal" path identity value tainted

def text (event : Event) : String := (toJson event).text

def write (event : Event) : Writing Unit := do
  Writing.put .serialization (text event)
  Writing.put .io "\n"

end ManifestDiff.JsonReport

namespace ManifestDiff

inductive Renderer where
  | text (palette : Palette)
  | jsonLines

namespace Renderer

def output : Renderer → Event → String
  | .text palette, event => TextReport.lines palette event
  | .jsonLines, event => JsonReport.text event ++ "\n"

def write : Renderer → Event → Writing Unit
  | .text palette, event => TextReport.write palette event
  | .jsonLines, event => JsonReport.write event

def emit (renderer : Renderer) : Sink Writer OutputFault := fun writer event =>
  (renderer.write event).on writer

end Renderer
end ManifestDiff
