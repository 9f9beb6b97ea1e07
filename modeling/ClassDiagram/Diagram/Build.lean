import ClassDiagram.Diagram.Record

/-!
From the declarations of a source file to its document. A declaration is named by the path of the
display names of the types around it and its own, joined by dots.
-/

namespace ClassDiagram

def joinPath (enclosing : Option String) (name : String) : String :=
  match enclosing with
  | none => name
  | some path => path ++ "." ++ name

namespace Viewpoint

mutual

def addTree (v : Viewpoint) (imports : List Import) (enclosing : Option String) :
    Declaration → Document → Document
  | ⟨h, members⟩, doc =>
      let path := joinPath enclosing h.displayName
      v.addForest imports (some path) members (v.addDeclaration imports path h doc)

def addForest (v : Viewpoint) (imports : List Import) (enclosing : Option String) :
    List Declaration → Document → Document
  | [], doc => doc
  | d :: ds, doc => v.addForest imports enclosing ds (v.addTree imports enclosing d doc)

end

end Viewpoint

def SourceUnit.document (u : SourceUnit) (o : DiagramOptions) (package : Option String) : Document :=
  let v : Viewpoint := { package := package.getD u.package, options := o }
  v.addForest u.imports none u.types {}

end ClassDiagram
