import ClassDiagram.CommandLine.Run
import ClassDiagram.Proofs.Settings.Nearest
import ClassDiagram.Proofs.Settings.Nested
import Mathlib

/-!
The layers that settings are made from, up to the command line. A setting is what the last option for it says,
then what the first source has for it that has any, and what is standard when nothing has.
-/

namespace ClassDiagram

namespace CommandLine

-- What an option says about a setting: each option is about at most one of them.
def Given.choice : Given → (l : Leaf) → Option l.Holds
  | .on (.package shown), .showPackage => some shown
  | .on (.constructors shown), .showConstructors => some shown
  | .on (.fieldRelationships shown), .showFieldRelationships => some shown
  | .on (.methodRelationships shown), .showMethodRelationships => some shown
  | .filled .workers text, .workers => Text.integer? text
  | _, _ => none

-- The options of a command, sorted out of all the arguments.
def Gives (args : List String) (c : Command) (sorted : Sorted) : Prop :=
  ∃ general name rest, sortArguments generalOptions args = some general ∧ general.operands = name :: rest ∧
    Command.ofName? name = some c ∧ sortArguments c.options rest = some sorted

end CommandLine

namespace Settings

open CommandLine

def shelf : FileSystem where
  tree := .dir [("class-atlas.toml",.file "=".toUTF8.toList),
    ("work",.dir [("class-atlas.toml",.file
      "[diagram]\nshow_package=false\nshow_constructors=false".toUTF8.toList),("src",.dir [])])]
  current := ["work","src"]

end Settings

end ClassDiagram
