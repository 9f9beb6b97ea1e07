import ClassDiagram.Declaration
import ClassDiagram.Diagram.Document
import ClassDiagram.Diagram.Options

/-!
Recording members on an entity. Recording gives the entity with the member added and the relationships
that the member implies; a member that the options hide changes nothing and implies nothing.
-/

namespace ClassDiagram

abbrev Recorded := Entity × List Relationship

namespace Entity

-- The name under which a reference made inside an entity is linked. A simple name that the file imports
-- is replaced by what it stands for; any other text is put in the entity's package.
def sourceOf (o : DiagramOptions) (e : Entity) (t : TypeRef) : String :=
  match t.baseName with
  | none => qualify e.package t.text
  | some base =>
      match ImportTable.get? e.imports base with
      | none => qualify e.package t.text
      | some qualified => (if o.showPackage then qualified else base) ++ t.suffix

def link (o : DiagramOptions) (e : Entity) (c : Connector) (t : TypeRef) : Relationship :=
  ⟨c, e.sourceOf o t, e.qualifiedName⟩

def recordField (o : DiagramOptions) (e : Entity) (d : FieldDecl) : Recorded :=
  let visibility := Visibility.ofModifiers d.modifiers
  match d.declarators with
  | [] => (e, [])
  | first :: _ =>
      if visibility ∈ o.fieldVisibilities then
        let field : Field := ⟨visibility, d.modifiers.contains "static", first.type, first.name⟩
        ({ e with fields := e.fields ++ [field] },
          if o.showFieldRelationships then [e.link o .composition d.type] else [])
      else (e, [])

def recordConstructor (o : DiagramOptions) (e : Entity) (d : ConstructorDecl) : Recorded :=
  let visibility := Visibility.ofModifiers d.modifiers
  if o.showConstructors ∧ visibility ∈ o.methodVisibilities then
    let method : Method :=
      ⟨visibility, d.modifiers.contains "static", d.modifiers.contains "abstract", e.name, d.name,
        d.parameters.map (·.type.text)⟩
    ({ e with methods := e.methods ++ [method] }, [])
  else (e, [])

def recordMethod (o : DiagramOptions) (e : Entity) (d : MethodDecl) : Recorded :=
  let visibility := Visibility.ofModifiers d.modifiers
  if visibility ∈ o.methodVisibilities then
    let method : Method :=
      ⟨visibility, d.modifiers.contains "static", d.modifiers.contains "abstract",
        d.returnType.text, d.name, d.parameters.map (·.type.text)⟩
    ({ e with methods := e.methods ++ [method] },
      if o.showMethodRelationships then
        (d.returnType :: d.parameters.map (·.type)).map (e.link o .dependency)
      else [])
  else (e, [])

def recordConstant (e : Entity) (name : String) : Entity :=
  { e with fields := e.fields ++ [⟨.pub, true, "", name⟩] }

def recordComponent (e : Entity) (p : Parameter) : Entity :=
  if e.kind = .record then { e with fields := e.fields ++ [⟨.pub, false, p.type.text, p.name⟩] }
  else e

def recordAll {α : Type} (record : Entity → α → Recorded) : Entity → List α → Recorded
  | e, [] => (e, [])
  | e, a :: as =>
      let (e₁, links) := record e a
      let (e₂, more) := recordAll record e₁ as
      (e₂, links ++ more)

end Entity

def Header.opened (package : String) (imports : List Import) (path : String) (h : Header) : Entity :=
  { package, kind := h.kind, name := path,
    imports := imports.foldl
      (fun table i => if i.isWildcard then table else ImportTable.bind i.name i.qualifiedName table)
      [] }

def Header.entity (o : DiagramOptions) (package : String) (imports : List Import) (path : String)
    (h : Header) : Recorded :=
  let e₀ := h.opened package imports path
  let realized := h.implemented.map (e₀.link o .realization)
  let extended :=
    if h.form = .cls ∨ h.form = .interface then h.extended.map (e₀.link o .extension) else []
  let (e₁, ofFields) := Entity.recordAll (Entity.recordField o) e₀ h.fields
  let (e₂, ofConstructors) := Entity.recordAll (Entity.recordConstructor o) e₁ h.constructors
  let (e₃, ofMethods) := Entity.recordAll (Entity.recordMethod o) e₂ h.methods
  let e₄ := if h.form = .enum then h.constants.foldl Entity.recordConstant e₃ else e₃
  let e₅ := if h.form = .record then h.components.foldl Entity.recordComponent e₄ else e₄
  (e₅, realized ++ extended ++ ofFields ++ ofConstructors ++ ofMethods)

-- The relationship of a nested type to the type around it. A type is nested when the path of its name
-- has a dot; the type around it is named by the path up to the last dot.
def containment (package path : String) : List Relationship :=
  if Text.isDotted path then
    [⟨.containment, qualify package path, qualify package (Text.enclosingSegments path)⟩]
  else []

structure Viewpoint where
  package : String := ""
  options : DiagramOptions := {}
  deriving DecidableEq, Repr

namespace Viewpoint

def entityPackage (v : Viewpoint) : String :=
  if v.options.showPackage then v.package else ""

def addDeclaration (v : Viewpoint) (imports : List Import) (path : String) (h : Header)
    (doc : Document) : Document :=
  let (e, links) := h.entity v.options v.entityPackage imports path
  doc.extend e (containment v.entityPackage path ++ links)

end Viewpoint

end ClassDiagram
