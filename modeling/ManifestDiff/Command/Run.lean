import ManifestDiff.Command.Arguments
import ManifestDiff.Config
import ManifestDiff.FileSystem
import ManifestDiff.Log.Note
import ManifestDiff.Manifest.Documents
import ManifestDiff.Manifest.Object
import ManifestDiff.Render.Palette
import ManifestDiff.Render.Sink
import ManifestDiff.Report.Basic
/-!
# Runs

A run loads the configuration and both manifests, and then writes the report. After a failure no
further step is taken, and nothing is written unless everything is loaded. A failure is told as a
chain of messages, from what could not be done to the cause behind it; the exit code tells it from a
difference.
-/
namespace ManifestDiff

inductive Failure where
  | unreadableConfig (path : String) (cause : FileError)
  | invalidConfig (path : String) (cause : ConfigError)
  | missingFile (path : String)
  | inaccessibleFile (path : String) (cause : FileError)
  | unreadableFile (path : String) (cause : FileError)
  | invalidManifest (path : String) (cause : ManifestError)
  /-- The report could not be written to its end; the writer said why. -/
  | unwritten (fault : OutputFault) (refusal : String)
  /-- The report was written, but the writer could not hand on what it held back. -/
  | unflushed (refusal : String)
deriving DecidableEq, Repr

namespace Failure

/-- The messages, the outermost first. What is wrong with a configuration is told on its own. -/
def chain : Failure → List String
  | .unreadableConfig path cause => ["failed to read config " ++ path, cause.message]
  | .invalidConfig path _ => ["invalid config " ++ path]
  | .missingFile path => ["file '" ++ path ++ "' does not exist"]
  | .inaccessibleFile path cause => ["cannot access " ++ path, cause.message]
  | .unreadableFile path cause => ["failed to read " ++ path, cause.message]
  | .invalidManifest path cause => ("error parsing " ++ path) :: cause.chain
  | .unwritten fault refusal => [fault.message refusal, refusal]
  | .unflushed refusal => [refusal]

def line (colours : Bool) (failure : Failure) : String :=
  (if colours then Palette.alarm "error:" else "error:") ++ " " ++ ": ".intercalate failure.chain

end Failure

structure Loading (α : Type) where
  notes : List Note
  result : Except Failure α

namespace Loading

variable {α β : Type}

def andThen (first : Loading α) (next : α → Loading β) : Loading β :=
  match first.result with
  | .error failure => ⟨first.notes, .error failure⟩
  | .ok value => ⟨first.notes ++ (next value).notes, (next value).result⟩

instance : Monad Loading where
  pure value := ⟨[], .ok value⟩
  bind := andThen

def silent (result : Except Failure α) : Loading α := ⟨[], result⟩

def note (note : Note) : Loading Unit := ⟨[note], .ok ()⟩

end Loading

/-- The configuration of a file, or the default one; the arguments count more than the file. -/
def Arguments.settings (arguments : Arguments) (files : FileSystem) : Except Failure Config := do
  let config ← match arguments.config with
    | none => pure {}
    | some path => do
      let text ← (files.read path).mapError (.unreadableConfig path)
      (Config.parse text).mapError (.invalidConfig path)
  let color := config.output.color && !arguments.noColor
  let format := arguments.format.getD config.output.format
  return { config with output := { color, format } }

/-- Only a file that is missing is told as such. -/
def checkExists (files : FileSystem) (path : String) : Except Failure Unit :=
  match files path with
  | .ok _ => .ok ()
  | .error .notFound => .error (.missingFile path)
  | .error cause => .error (.inaccessibleFile path cause)

def loadManifest (files : FileSystem) (path : String) : Loading (List Object) := do
  let text ← .silent ((files.read path).mapError (.unreadableFile path))
  let documents ← .silent ((Manifest.parseDocuments text).mapError (.invalidManifest path))
  Loading.note (.decoded documents.length)
  let objects ← .silent ((Manifest.objectsOf documents).mapError (.invalidManifest path))
  Loading.note (.loaded path objects.length)
  return objects

structure Job where
  config : Config
  old : List Object
  new : List Object

def Job.load (files : FileSystem) (arguments : Arguments) : Loading Job := do
  let config ← .silent (arguments.settings files)
  Loading.silent (checkExists files arguments.old)
  Loading.silent (checkExists files arguments.new)
  let old ← loadManifest files arguments.old
  let new ← loadManifest files arguments.new
  return ⟨config, old, new⟩

/-- The way a report is written; text is painted only where the surroundings allow it, too. -/
def OutputSettings.renderer (settings : OutputSettings) (colours : Bool) : Renderer :=
  match settings.format with
  | .text => .text (if settings.color && colours then .ansi else .plain)
  | .json => .jsonLines

/-- What a run leaves behind: what the writer took, the notes, and the verdict. -/
structure Run where
  writer : Writer
  notes : List Note
  verdict : Except Failure Stats

/-- Writes the report of a job, and then what the writer still holds back of it. -/
def Job.write (job : Job) (colours : Bool) (writer : Writer) : Run :=
  let renderer := job.config.output.renderer colours
  match (Report.emitReport job.config.identity renderer.emit job.old job.new).start writer with
  | (.error fault, progress) =>
    ⟨progress.state, progress.notes, .error (.unwritten fault writer.refusal)⟩
  | (.ok stats, progress) =>
    match progress.state.flush with
    | (writer, false) => ⟨writer, progress.notes, .error (.unflushed writer.refusal)⟩
    | (writer, true) => ⟨writer, progress.notes ++ [.written stats], .ok stats⟩

def Arguments.run (arguments : Arguments) (files : FileSystem) (colours : Bool) (writer : Writer) :
    Run :=
  let loading := Job.load files arguments
  match loading.result with
  | .error failure => ⟨writer, loading.notes, .error failure⟩
  | .ok job =>
    let written := job.write colours writer
    { written with notes := loading.notes ++ written.notes }

namespace Run

/-- Two for an error, and one for a difference if that is asked for. -/
def exitCode (run : Run) (arguments : Arguments) : Nat :=
  match run.verdict with
  | .error _ => 2
  | .ok stats => if arguments.exitCode && stats.hasDifferences then 1 else 0

/-- The notes that are logged; those for debugging only if that is asked for. -/
def logged (run : Run) (arguments : Arguments) : List Note :=
  run.notes.filter fun note => arguments.verbose || note.level == .warn

end Run

def UsageError.exitCode : UsageError → Nat
  | .helpAsked => 0
  | .versionAsked => 0
  | _ => 2

end ManifestDiff
