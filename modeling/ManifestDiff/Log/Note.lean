import ManifestDiff.Diff.Event
import ManifestDiff.Json.Value
import ManifestDiff.Manifest.Object
/-!
# Log notes

The number of objects by outcome, and the lines that a run logs beside its report.
-/
namespace ManifestDiff

structure Stats where
  added : Nat := 0
  removed : Nat := 0
  changed : Nat := 0
  unchanged : Nat := 0
deriving DecidableEq, Repr, Inhabited

namespace Stats

def hasDifferences (stats : Stats) : Bool :=
  0 < stats.added + stats.removed + stats.changed

def jsonText (stats : Stats) : String :=
  let field (name : String) (n : Nat) := Json.quote name ++ ":" ++ toString n
  "\x7b" ++ field "added" stats.added ++ "," ++ field "removed" stats.removed ++ "," ++
    field "changed" stats.changed ++ "," ++ field "unchanged" stats.unchanged ++ "\x7d"

end Stats

inductive Level where
  | warn
  | debug
deriving DecidableEq, Repr

def Level.name : Level → String
  | .warn => "WARN"
  | .debug => "DEBUG"

inductive Note where
  | decoded (documents : Nat)
  | loaded (file : String) (objects : Nat)
  | duplicateKey (key : ObjectKey)
  | comparing (old new : Nat)
  /-- Identity lists are compared by position, as an element has no identity of its own. -/
  | unmatched (path : Path)
  | written (stats : Stats)
deriving DecidableEq, Repr

namespace Note

def level : Note → Level
  | .duplicateKey _ => .warn
  | _ => .debug

def target : Note → String
  | .decoded _ => "kdiff_manifest::parse"
  | .loaded .. | .written _ => "k8s_diff::commands"
  | .duplicateKey _ | .comparing .. => "kdiff_diff::report"
  | .unmatched _ => "kdiff_diff::engine"

def message : Note → String
  | .decoded documents => "decoded manifest documents=" ++ toString documents
  | .loaded file objects => "loaded manifest path=" ++ file ++ " objects=" ++ toString objects
  | .duplicateKey key =>
    "duplicate object key, keeping the last definition key=" ++ key.display
  | .comparing old new =>
    "comparing object sets old=" ++ toString old ++ " new=" ++ toString new
  | .unmatched path =>
    "identity list has unmatched elements, comparing by position path=" ++ path.display
  | .written stats =>
    "report written stats=ReportStats \x7b added: " ++ toString stats.added ++ ", removed: " ++
      toString stats.removed ++ ", changed: " ++ toString stats.changed ++ ", unchanged: " ++
      toString stats.unchanged ++ " \x7d"

def line (note : Note) : String :=
  note.level.name ++ " " ++ note.target ++ ": " ++ note.message

end Note
end ManifestDiff
