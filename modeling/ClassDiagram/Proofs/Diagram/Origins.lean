import ClassDiagram.Proofs.Diagram.Reference

/-!
Where the links of a document come from. A link is drawn because a type is nested in another, or because
a declaration refers to a type. The options choose the origins; the link of an origin then depends on the
package, on the imports and on whether packages are shown, and on nothing else.
-/

namespace ClassDiagram

inductive Origin where
  | nesting (path : String)
  | reference (c : Connector) (path : String) (t : TypeRef)

namespace Origin

def baseName? : Origin → Option String
  | nesting _ => none
  | reference _ _ t => t.baseName

def suffix : Origin → String
  | nesting _ => ""
  | reference _ _ t => t.suffix

def link (o : DiagramOptions) (package : String) (imports : List Import) : Origin → Relationship
  | nesting path => ⟨.containment,qualify package path,qualify package (Text.enclosingSegments path)⟩
  | reference c path t => Header.linkTo o package imports path c t

theorem link_congr {o p : DiagramOptions} (h : o.showPackage = p.showPackage) (package : String)
    (imports : List Import) : link o package imports = link p package imports := by
  funext origin
  cases origin with
  | nesting path => rfl
  | reference c path t => simp only [link,Header.linkTo,linkSource,h]

theorem link_of_lookup {imports others : List Import} {origin : Origin}
    (h : ∀ name ∈ origin.baseName?, lastImport? imports name = lastImport? others name)
    (o : DiagramOptions) (package : String) :
    origin.link o package imports = origin.link o package others := by
  cases origin with
  | nesting path => rfl
  | reference c path t =>
    simp only [link,Header.linkTo,linkSource]
    cases ht : t.baseName with
    | none => rfl
    | some name => simp only [h name ht]

end Origin

namespace Header

variable (o : DiagramOptions) (path : String)

def supertypeOrigins (h : Header) : List Origin :=
  h.implemented.map (.reference .realization path) ++
    if h.form = .cls ∨ h.form = .interface then h.extended.map (.reference .extension path) else []

def fieldOrigins (h : Header) : List Origin :=
  if o.showFieldRelationships then
    (h.fields.filter (FieldDecl.shown o)).map fun d => .reference .composition path d.type
  else []

def methodOrigins (h : Header) : List Origin :=
  if o.showMethodRelationships then
    (h.methods.filter (MethodDecl.shown o)).flatMap fun d =>
      d.references.map (.reference .dependency path)
  else []

end Header

namespace Placement

def nestingOrigins (p : Placement) : List Origin :=
  if '.' ∈ p.path.toList then [.nesting p.path] else []

def origins (o : DiagramOptions) (p : Placement) : List Origin :=
  let h := p.declaration.toHeader
  p.nestingOrigins ++ h.supertypeOrigins p.path ++ h.fieldOrigins o p.path ++ h.methodOrigins o p.path

theorem links_eq_map (o : DiagramOptions) (package : String) (imports : List Import) (p : Placement) :
    p.links o package imports = (p.origins o).map (Origin.link o package imports) := by
  have hlink : ∀ c t, Origin.link o package imports (.reference c p.path t) =
      Header.linkTo o package imports p.path c t := fun _ _ => rfl
  simp only [links,origins,List.map_append]
  refine congrArg₂ _ (congrArg₂ _ (congrArg₂ _ ?_ ?_) ?_) ?_
  · rw [nestingLinks,nestingOrigins]
    split <;> rfl
  · rw [Header.supertypeLinks,Header.supertypeOrigins,List.map_append,List.map_map]
    refine congrArg₂ _ rfl ?_
    split
    · rw [List.map_map]
      rfl
    · rfl
  · rw [Header.fieldLinks,Header.fieldOrigins]
    split
    · rw [List.map_map]
      rfl
    · rfl
  · rw [Header.methodLinks,Header.methodOrigins]
    split
    · simp only [List.map_flatMap,List.map_map,Function.comp_def,hlink]
    · rfl

end Placement

def SourceUnit.origins (o : DiagramOptions) (u : SourceUnit) : List Origin :=
  u.placements.flatMap (Placement.origins o)

theorem SourceUnit.relationships_eq_map (u : SourceUnit) (o : DiagramOptions)
    (package : Option String) :
    (u.document o package).relationships =
      (u.origins o).map (Origin.link o (u.packageShown o package) u.imports) := by
  rw [u.document_eq,reference,Placement.document,origins,List.map_flatMap]
  exact List.flatMap_congr fun p _ => Placement.links_eq_map o _ _ p

end ClassDiagram
