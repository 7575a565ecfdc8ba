import ManifestDiff.Command.Run
/-!
# Command line

The program reads the files that its arguments name, and hands everything else to a run.
-/
namespace ManifestDiff.CommandLine

def usage : String :=
  "Semantic diff of Kubernetes manifests\n\n" ++
  "Usage: k8s-diff [OPTIONS] <FILE1> <FILE2>\n\n" ++
  "Options:\n" ++
  "  -c, --config <CONFIG>  TOML configuration file\n" ++
  "      --no-color         Disable colored output\n" ++
  "      --format <FORMAT>  Output format, overriding the configuration file\n" ++
  "  -v, --verbose          Log debug events to stderr\n" ++
  "      --exit-code        Exit with status 1 when the manifests differ\n" ++
  "  -h, --help             Print help\n" ++
  "  -V, --version          Print version\n"

def complaint : UsageError → String
  | .missingFile => "a required argument is missing"
  | .unknownArgument => "unexpected argument"
  | .badValue => "invalid value"
  | .repeatedOption => "an option is given more than once"
  | .unneededValue => "a value is given to an option that takes none"
  | .helpAsked => "help"
  | .versionAsked => "version"

def fileError : IO.Error → FileError
  | .noFileOrDirectory .. => .notFound
  | .inappropriateType _ code _ => if code == 21 then .isADirectory else .notADirectory
  | error => .other (toString error)

def lookUp (path : String) : IO (Except FileError Entry) := do
  try
    return .ok (.file (← IO.FS.readBinFile path))
  catch error =>
    match fileError error with
    | .isADirectory => return .ok .directory
    | .other reason => return .ok (.unreadable (.other reason))
    | cause => return .error cause

def snapshot (arguments : Arguments) : IO FileSystem := do
  let paths := arguments.config.toList ++ [arguments.old, arguments.new]
  let found ← paths.mapM fun path => do return (path, ← lookUp path)
  return fun path => (found.lookup path).getD (.error .notFound)

def surroundings : IO Surroundings := do
  return {
    noColor := ← IO.getEnv "NO_COLOR"
    cliColor := ← IO.getEnv "CLICOLOR"
    cliColorForce := ← IO.getEnv "CLICOLOR_FORCE"
    terminal := ← (← IO.getStdout).isTty }

def refuse (error : UsageError) : IO Unit :=
  match error with
  | .helpAsked => IO.print usage
  | .versionAsked => IO.println "k8s-diff 0.1.0"
  | error => IO.eprint ("error: " ++ complaint error ++ "\n\n" ++ usage)

def compareFiles (arguments : Arguments) : IO UInt32 := do
  let colours := (← surroundings).colours
  let writer := Writer.unbounded.buffered 8192
  let run := arguments.run (← snapshot arguments) colours writer
  for note in run.logged arguments do
    IO.eprintln note.line
  (← IO.getStdout).write run.writer.accepted
  match run.verdict with
  | .error failure => IO.eprintln (failure.line colours)
  | .ok _ => pure ()
  return UInt32.ofNat (run.exitCode arguments)

end ManifestDiff.CommandLine

def main (arguments : List String) : IO UInt32 := do
  match ManifestDiff.Arguments.parse arguments with
  | .error error =>
    ManifestDiff.CommandLine.refuse error
    return UInt32.ofNat error.exitCode
  | .ok arguments => ManifestDiff.CommandLine.compareFiles arguments
