/-!
References to types. A reference keeps the text it is written as; a reference to a named type also
keeps the simple name and the type arguments.
-/

namespace ClassDiagram

structure TypeRef where
  text : String
  baseName : Option String := none
  arguments : Option (List TypeRef) := none
  deriving Repr, BEq, Inhabited

namespace TypeRef

def ofText (text : String) : TypeRef := { text }

def blank : TypeRef := ofText ""

def isNamed (t : TypeRef) : Bool := t.baseName.isSome

def angled (texts : List String) : String := "<" ++ ", ".intercalate texts ++ ">"

def suffix (t : TypeRef) : String :=
  match t.arguments with
  | none => ""
  | some [] => ""
  | some args => angled (args.map TypeRef.text)

def argumentList : List TypeRef → Option (List TypeRef)
  | [] => none
  | args => some args

def named (baseName : String) (arguments : List TypeRef) (text : Option String) : TypeRef :=
  let bare : TypeRef := { text := baseName, baseName, arguments := argumentList arguments }
  { bare with text := text.getD (baseName ++ bare.suffix) }

end TypeRef

end ClassDiagram
