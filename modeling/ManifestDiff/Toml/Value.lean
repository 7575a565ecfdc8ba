import ManifestDiff.Number.Numeral
/-!
# TOML values

A table keeps its entries in the order of their first mention. It also keeps how it was introduced,
as that decides where more entries may be added to it later.
-/
namespace ManifestDiff.Toml

inductive Origin where
  | inline
  | header
  | implied
  | dotted
deriving DecidableEq, Repr

inductive Value where
  | string (s : String)
  | integer (i : Int64)
  | float (x : Binary64)
  | boolean (b : Bool)
  | datetime (text : String)
  | array (items : List Value)
  | tables (items : List Value)
  | table (origin : Origin) (entries : List (String × Value))
deriving Inhabited

abbrev Entries := List (String × Value)

namespace Entries

def find? (key : String) (entries : Entries) : Option Value := entries.lookup key

def replace (key : String) (value : Value) (entries : Entries) : Entries :=
  entries.map fun (k, v) => if k == key then (k, value) else (k, v)

def erase (key : String) (entries : Entries) : Entries :=
  entries.filter fun (k, _) => k != key

def add? (key : String) (value : Value) (entries : Entries) : Option Entries :=
  if (entries.find? key).isSome then none else some (entries ++ [(key, value)])

/-- What becomes of a table when its entries at the end of a path change. On the way tables that are
missing are introduced, an array of tables stands for its last table, and an inline table is left
alone. A dotted key does not lead through a table that has a header. -/
def modifyAt (dotted : Bool) (change : Origin → Entries → Option Entries) (origin : Origin)
    (entries : Entries) : List String → Option Entries
  | [] => change origin entries
  | key :: path =>
    match entries.find? key with
    | none => do
      let origin := if dotted then .dotted else .implied
      return entries ++ [(key, .table origin (← modifyAt dotted change origin [] path))]
    | some (.table .inline _) => none
    | some (.table origin inner) =>
      if dotted && origin == .header then none
      else do
        return entries.replace key (.table origin (← modifyAt dotted change origin inner path))
    | some (.tables items) =>
      match items.reverse with
      | .table origin inner :: before => do
        let last : Value := .table origin (← modifyAt dotted change origin inner path)
        return entries.replace key (.tables (before.reverse ++ [last]))
      | _ => none
    | some _ => none

/-- A key and a value are added to a table. Under a dotted key the innermost table must have been
introduced by dotted keys alone. -/
def assign? (origin : Origin) (entries : Entries) (path : List String) (value : Value) :
    Option Entries :=
  match path.getLast? with
  | some key =>
    let nested := path.length != 1
    modifyAt true
      (fun origin entries =>
        if (origin == .dotted) == nested then entries.add? key value else none)
      origin entries path.dropLast
  | none => none

def assignAll? (origin : Origin) (entries : Entries) : List (List String × Value) → Option Entries
  | [] => some entries
  | (path, value) :: rest => do assignAll? origin (← assign? origin entries path value) rest

end Entries
end ManifestDiff.Toml
