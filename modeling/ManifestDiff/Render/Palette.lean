/-!
# Palettes

How the text of a report is painted according to what it says. A colour is an opening sequence
before the text and a reset after it; where the text itself has a reset, the colour is opened again.
-/
namespace ManifestDiff

inductive Tone where
  | addition
  | removal
  | modification
  /-- The mark of a structural change between identity lists of different length. -/
  | taint
deriving DecidableEq, Repr

abbrev Palette := Tone → String → String

namespace Palette

def plain : Palette := fun _ text => text

/-- Bright green for additions, bright red for removals and taint, bright yellow for
modifications. -/
def colour : Tone → String
  | .addition => "92"
  | .removal => "91"
  | .taint => "91"
  | .modification => "93"

def opening (code : String) : List Char := '\x1b' :: '[' :: (code.toList ++ ['m'])

def reset : List Char := ['\x1b', '[', '0', 'm']

def reopen (start : List Char) : List Char → List Char
  | '\x1b' :: '[' :: '0' :: 'm' :: rest => reset ++ start ++ reopen start rest
  | c :: rest => c :: reopen start rest
  | [] => []

/-- The text between the opening sequence of a colour code and a reset. -/
def wrap (code text : String) : String :=
  String.ofList (opening code ++ reopen (opening code) text.toList ++ reset)

def ansi : Palette := fun tone text => wrap (colour tone) text

def alarm (text : String) : String := wrap "1;91" text

end Palette

/-- Variables of the environment, and whether the output goes to a terminal. -/
structure Surroundings where
  noColor : Option String
  cliColor : Option String
  cliColorForce : Option String
  terminal : Bool
deriving DecidableEq, Repr

/-- Colours that are forced are on. Else the presence of `NO_COLOR` turns them off, and what is left
is on for terminals unless `CLICOLOR` is zero. -/
def Surroundings.colours (surroundings : Surroundings) : Bool :=
  if surroundings.cliColorForce.any (· != "0") then true
  else if surroundings.noColor.isSome then false
  else surroundings.cliColor.all (· != "0") && surroundings.terminal

end ManifestDiff
