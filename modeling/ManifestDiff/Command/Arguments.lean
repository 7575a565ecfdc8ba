import ManifestDiff.Config
/-!
# Command line arguments

Two files and some options. An option has a long name and may have a short one; its value is a part
of the argument or the next argument. Behind two hyphens all arguments are files.

A file or a value is checked only when the next one, or the next option, turns out to be
well-formed. So an unknown argument is told before a bad value right in front of it.
-/
namespace ManifestDiff

structure Arguments where
  old : String
  new : String
  config : Option String
  noColor : Bool
  format : Option OutputFormat
  verbose : Bool
  exitCode : Bool
deriving DecidableEq, Repr

inductive UsageError where
  | missingFile
  | unknownArgument
  | badValue
  | repeatedOption
  | unneededValue
  | helpAsked
  | versionAsked
deriving DecidableEq, Repr

inductive Flag where
  | noColor
  | verbose
  | exitCode
  | help
  | version
deriving DecidableEq, Repr

inductive Setting where
  | config
  | format
deriving DecidableEq, Repr

inductive Switch where
  | flag (flag : Flag)
  | setting (setting : Setting)
deriving DecidableEq, Repr

namespace Switch

def ofLongName? (name : String) : Option Switch :=
  [("config", .setting .config), ("no-color", .flag .noColor), ("format", .setting .format),
    ("verbose", .flag .verbose), ("exit-code", .flag .exitCode), ("help", .flag .help),
    ("version", .flag .version)].lookup name

def ofShortName? : Char → Option Switch
  | 'c' => some (.setting .config)
  | 'v' => some (.flag .verbose)
  | 'h' => some (.flag .help)
  | 'V' => some (.flag .version)
  | _ => none

end Switch

inductive Pending where
  | file (path : String)
  | setting (setting : Setting) (value : Option String)
deriving DecidableEq, Repr

structure Scan where
  files : List String
  flags : List Flag
  config : Option String
  format : Option OutputFormat
  pending : Option Pending
deriving DecidableEq, Repr

namespace Scan

def start : Scan := ⟨[], [], none, none, none⟩

def assign (scan : Scan) (setting : Setting) (value : String) : Except UsageError Scan :=
  match setting with
  | .config =>
    if scan.config.isSome then .error .repeatedOption
    else if value == "" then .error .badValue
    else .ok { scan with config := some value }
  | .format =>
    if scan.format.isSome then .error .repeatedOption
    else
      match OutputFormat.ofName? value with
      | some format => .ok { scan with format := some format }
      | none => .error .badValue

def settle (scan : Scan) : Except UsageError Scan :=
  let settled := { scan with pending := none }
  match scan.pending with
  | none => .ok scan
  | some (.file path) =>
    if path == "" then .error .badValue else .ok { settled with files := scan.files ++ [path] }
  | some (.setting _ none) => .error .badValue
  | some (.setting setting (some value)) => settled.assign setting value

def raise (scan : Scan) (flag : Flag) : Except UsageError Scan := do
  let scan ← scan.settle
  match flag with
  | .help => .error .helpAsked
  | .version => .error .versionAsked
  | flag =>
    if scan.flags.contains flag then .error .repeatedOption
    else .ok { scan with flags := flag :: scan.flags }

/-- A setting with the value that is a part of its argument, if there is one. -/
def set (scan : Scan) (setting : Setting) (value : Option String) : Except UsageError Scan := do
  let scan ← scan.settle
  match value with
  | some value => scan.assign setting value
  | none => .ok { scan with pending := some (.setting setting none) }

def fileCount (scan : Scan) : Nat :=
  scan.files.length +
    match scan.pending with
    | some (.file _) => 1
    | _ => 0

def addFile (scan : Scan) (path : String) : Except UsageError Scan :=
  if scan.fileCount < 2 then do
    let scan ← scan.settle
    return { scan with pending := some (.file path) }
  else .error .unknownArgument

def long (scan : Scan) (text : List Char) : Except UsageError Scan :=
  let name := text.takeWhile (· != '=')
  let value := match text.dropWhile (· != '=') with
    | _ :: rest => some (String.ofList rest)
    | [] => none
  match Switch.ofLongName? (String.ofList name) with
  | none => .error .unknownArgument
  | some (.flag flag) => if value.isSome then .error .unneededValue else scan.raise flag
  | some (.setting setting) => scan.set setting value

/-- Short options in one argument, from behind its hyphen. A setting takes all that follows it as
its value, without an equals sign at the start. -/
def short (scan : Scan) : List Char → Except UsageError Scan
  | [] => .ok scan
  | c :: rest =>
    match Switch.ofShortName? c with
    | none => .error .unknownArgument
    | some (.flag flag) => do (← scan.raise flag).short rest
    | some (.setting setting) =>
      scan.set setting
        (match rest with
        | [] => none
        | '=' :: value => some (String.ofList value)
        | value => some (String.ofList value))

/-- An argument that is no option: the value that is still to come, or a file. -/
def word (scan : Scan) (text : String) : Except UsageError Scan :=
  match scan.pending with
  | some (.setting setting none) =>
    .ok { scan with pending := some (.setting setting (some text)) }
  | _ => scan.addFile text

/-- All the arguments, the options among them if `options` holds. -/
def readAll (options : Bool) (scan : Scan) : List String → Except UsageError Scan
  | [] => scan.settle
  | argument :: rest =>
    if options then
      match argument.toList with
      | ['-', '-'] => scan.readAll false rest
      | '-' :: '-' :: text => do (← scan.long text).readAll true rest
      | '-' :: c :: text => do (← scan.short (c :: text)).readAll true rest
      | _ => do (← scan.word argument).readAll true rest
    else do (← scan.addFile argument).readAll false rest

end Scan

def Arguments.parse (arguments : List String) : Except UsageError Arguments := do
  let scan ← Scan.start.readAll true arguments
  match scan.files with
  | [old, new] =>
    return {
      old, new
      config := scan.config
      noColor := scan.flags.contains .noColor
      format := scan.format
      verbose := scan.flags.contains .verbose
      exitCode := scan.flags.contains .exitCode }
  | _ => .error .missingFile

end ManifestDiff
