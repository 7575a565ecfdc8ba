/-!
# File systems

What paths lead to, and a file system that is the listing of one directory. A path goes down from
the directory name by name; a name below something that is no directory, or that is missing, ends
it.
-/
namespace ManifestDiff

inductive FileError where
  | notFound
  | notADirectory
  | isADirectory
  | nameTooLong
  | zeroInName
  | notText
  | other (reason : String)
deriving DecidableEq, Repr

def FileError.message : FileError → String
  | .notFound => "No such file or directory (os error 2)"
  | .notADirectory => "Not a directory (os error 20)"
  | .isADirectory => "Is a directory (os error 21)"
  | .nameTooLong => "File name too long (os error 36)"
  | .zeroInName => "file name contained an unexpected NUL byte"
  | .notText => "stream did not contain valid UTF-8"
  | .other reason => reason

inductive Entry where
  | file (content : ByteArray)
  | directory
  | unreadable (cause : FileError)

abbrev FileSystem := String → Except FileError Entry

namespace FileSystem

def read (files : FileSystem) (path : String) : Except FileError String := do
  match ← files path with
  | .directory => throw .isADirectory
  | .unreadable cause => throw cause
  | .file content =>
    match String.fromUTF8? content with
    | some text => return text
    | none => throw .notText

def names : List Char → List (List Char)
  | [] => [[]]
  | c :: rest =>
    if c == '/' then [] :: names rest
    else
      match names rest with
      | [] => [[c]]
      | name :: others => (c :: name) :: others

inductive Place where
  | base
  | outside
  | entry (entry : Entry)

/-- The place of a name, seen from another place. The directories in the listing are empty, and of
those around it only the way up is known. -/
def step (listing : List (String × Entry)) (place : Place) (name : List Char) :
    Except FileError Place :=
  let stays := name == [] || name == ['.']
  let goesUp := name == ['.', '.']
  let missing : Except FileError Place :=
    .error (if (String.ofList name).utf8ByteSize > 255 then .nameTooLong else .notFound)
  match place with
  | .entry .directory => if stays then .ok place else if goesUp then .ok .base else missing
  | .entry _ => .error .notADirectory
  | .outside => if stays || goesUp then .ok place else missing
  | .base =>
    if stays then .ok place
    else if goesUp then .ok .outside
    else
      match listing.lookup (String.ofList name) with
      | some entry => .ok (.entry entry)
      | none => missing

def ofListing (listing : List (String × Entry)) : FileSystem := fun path =>
  if path.toList.contains '\x00' then .error .zeroInName
  else if path.utf8ByteSize ≥ 4096 then .error .nameTooLong
  else if path == "" then .error .notFound
  else do
    let start := if path.toList.head? == some '/' then Place.outside else .base
    match ← (names path.toList).foldlM (step listing) start with
    | .entry entry => return entry
    | _ => return .directory

end FileSystem
end ManifestDiff
