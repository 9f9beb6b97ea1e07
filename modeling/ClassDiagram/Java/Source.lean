import ClassDiagram.Log
import ClassDiagram.Language
import ClassDiagram.Text.Utf8
import ClassDiagram.Java.Grammar
import ClassDiagram.Java.Lowering

/-!
Source files read as declarations. What is amiss in a source does not stop the reading: it is reported,
and the declarations that could be read are given.
-/

namespace ClassDiagram

def readSource (path : String) (bytes : List UInt8) : Java.Result (SourceUnit × Log) := do
  let (root, flawed) := Java.parse (Text.Utf8.decode bytes).toList
  let unit ← Java.unitOf path root
  pure (unit, (if flawed then [.syntaxErrors path] else []) ++ [.parsed path unit.types.length])

def readKnown (r : Registry) (path : String) (bytes : List UInt8) :
    Java.Result (Option (SourceUnit × Log)) :=
  match r.forFile? path with
  | none => .ok none
  | some _ => (readSource path bytes).map some

end ClassDiagram
