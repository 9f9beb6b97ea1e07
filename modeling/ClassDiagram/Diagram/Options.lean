import ClassDiagram.Vocabulary

/-!
What a diagram shows of the declarations it is made from.
-/

namespace ClassDiagram

structure DiagramOptions where
  fieldVisibilities : List Visibility := Vocabulary.members
  methodVisibilities : List Visibility := Vocabulary.members
  showPackage : Bool := true
  showConstructors : Bool := true
  showFieldRelationships : Bool := true
  showMethodRelationships : Bool := true
  deriving DecidableEq, Repr

end ClassDiagram
