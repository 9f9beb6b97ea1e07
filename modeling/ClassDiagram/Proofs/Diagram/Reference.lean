import ClassDiagram.Proofs.Declaration.Placement
import ClassDiagram.Proofs.Diagram.Imports

/-!
The document of a source file, said without recording anything: one entity and one block of links for
each placement, in order. Adding the declarations of a forest to a document appends what this says.
-/

namespace ClassDiagram

def FieldDecl.shown (o : DiagramOptions) (d : FieldDecl) : Bool :=
  decide (Visibility.ofModifiers d.modifiers ∈ o.fieldVisibilities) && !d.declarators.isEmpty

def FieldDecl.drawn? (d : FieldDecl) : Option Field :=
  d.declarators.head?.map fun v =>
    ⟨Visibility.ofModifiers d.modifiers,d.modifiers.contains "static",v.type,v.name⟩

def ConstructorDecl.shown (o : DiagramOptions) (d : ConstructorDecl) : Bool :=
  o.showConstructors && decide (Visibility.ofModifiers d.modifiers ∈ o.methodVisibilities)

def ConstructorDecl.drawn (path : String) (d : ConstructorDecl) : Method :=
  ⟨Visibility.ofModifiers d.modifiers,d.modifiers.contains "static",d.modifiers.contains "abstract",
    path,d.name,d.parameters.map (·.type.text)⟩

def MethodDecl.shown (o : DiagramOptions) (d : MethodDecl) : Bool :=
  decide (Visibility.ofModifiers d.modifiers ∈ o.methodVisibilities)

def MethodDecl.drawn (d : MethodDecl) : Method :=
  ⟨Visibility.ofModifiers d.modifiers,d.modifiers.contains "static",d.modifiers.contains "abstract",
    d.returnType.text,d.name,d.parameters.map (·.type.text)⟩

def MethodDecl.references (d : MethodDecl) : List TypeRef := d.returnType :: d.parameters.map (·.type)

namespace Header

def drawnFields (o : DiagramOptions) (h : Header) : List Field :=
  (h.fields.filter (FieldDecl.shown o)).filterMap FieldDecl.drawn? ++
    (if h.form = .enum then h.constants.map fun name => ⟨.pub,true,"",name⟩ else []) ++
    (if h.form = .record then h.components.map fun p => ⟨.pub,false,p.type.text,p.name⟩ else [])

def drawnMethods (o : DiagramOptions) (path : String) (h : Header) : List Method :=
  (h.constructors.filter (ConstructorDecl.shown o)).map (ConstructorDecl.drawn path) ++
    (h.methods.filter (MethodDecl.shown o)).map MethodDecl.drawn

end Header

def linkSource (o : DiagramOptions) (package : String) (imports : List Import) (t : TypeRef) : String :=
  match t.baseName with
  | none => qualify package t.text
  | some base =>
      match lastImport? imports base with
      | none => qualify package t.text
      | some qualified => (if o.showPackage then qualified else base) ++ t.suffix

namespace Header

variable (o : DiagramOptions) (package : String) (imports : List Import) (path : String)

def linkTo (c : Connector) (t : TypeRef) : Relationship :=
  ⟨c,linkSource o package imports t,qualify package path⟩

def supertypeLinks (h : Header) : List Relationship :=
  h.implemented.map (linkTo o package imports path .realization) ++
    if h.form = .cls ∨ h.form = .interface then h.extended.map (linkTo o package imports path .extension)
    else []

def fieldLinks (h : Header) : List Relationship :=
  if o.showFieldRelationships then
    (h.fields.filter (FieldDecl.shown o)).map fun d => linkTo o package imports path .composition d.type
  else []

def methodLinks (h : Header) : List Relationship :=
  if o.showMethodRelationships then
    (h.methods.filter (MethodDecl.shown o)).flatMap fun d =>
      d.references.map (linkTo o package imports path .dependency)
  else []

end Header

theorem qualify_injective {package name other : String} (h : qualify package name = qualify package other) :
    name = other := by
  rw [qualify,qualify] at h
  split at h
  · exact h
  · exact (String.append_right_inj _).mp h

def nestingLinks (package path : String) : List Relationship :=
  if '.' ∈ path.toList then
    [⟨.containment,qualify package path,qualify package (Text.enclosingSegments path)⟩]
  else []

namespace Placement

variable (o : DiagramOptions) (package : String) (imports : List Import)

def entity (p : Placement) : Entity :=
  { package,kind := p.declaration.kind,name := p.path,imports := importTable imports
    fields := p.declaration.drawnFields o
    methods := p.declaration.drawnMethods o p.path }

def links (p : Placement) : List Relationship :=
  let h := p.declaration.toHeader
  nestingLinks package p.path ++ h.supertypeLinks o package imports p.path ++
    h.fieldLinks o package imports p.path ++ h.methodLinks o package imports p.path

def document (ps : List Placement) : Document :=
  { types := ps.map (entity o package imports)
    relationships := ps.flatMap (links o package imports) }

theorem document_cons (p : Placement) (ps : List Placement) (doc : Document) :
    (doc.extend (p.entity o package imports) (p.links o package imports)).append
      (document o package imports ps) = doc.append (document o package imports (p :: ps)) := by
  simp [document,Document.append,Document.extend]

theorem document_append (ps qs : List Placement) (doc : Document) :
    (doc.append (document o package imports ps)).append (document o package imports qs) =
      doc.append (document o package imports (ps ++ qs)) := by
  simp [document,Document.append]

end Placement

def SourceUnit.packageShown (u : SourceUnit) (o : DiagramOptions) (package : Option String) : String :=
  if o.showPackage then package.getD u.package else ""

def SourceUnit.reference (u : SourceUnit) (o : DiagramOptions) (package : Option String) : Document :=
  Placement.document o (u.packageShown o package) u.imports u.placements

namespace Entity

variable (o : DiagramOptions)

theorem link_members (e : Entity) (fields : List Field) (methods : List Method) :
    ({ e with fields := fields,methods := methods } : Entity).link o = e.link o := rfl

theorem recordField_eq (e : Entity) (d : FieldDecl) :
    e.recordField o d =
      ({ e with fields := e.fields ++ ([d].filter (FieldDecl.shown o)).filterMap FieldDecl.drawn? },
        if o.showFieldRelationships then
          ([d].filter (FieldDecl.shown o)).map fun d => e.link o .composition d.type
        else []) := by
  obtain ⟨modifiers,type,declarators⟩ := d
  cases declarators with
  | nil => simp [recordField,FieldDecl.shown]
  | cons v vs =>
    by_cases hv : Visibility.ofModifiers modifiers ∈ o.fieldVisibilities
    · simp [recordField,FieldDecl.shown,FieldDecl.drawn?,hv]
    · simp [recordField,FieldDecl.shown,hv]

theorem recordAll_fields (e : Entity) (ds : List FieldDecl) :
    recordAll (recordField o) e ds =
      ({ e with fields := e.fields ++ (ds.filter (FieldDecl.shown o)).filterMap FieldDecl.drawn? },
        if o.showFieldRelationships then
          (ds.filter (FieldDecl.shown o)).map fun d => e.link o .composition d.type
        else []) := by
  induction ds generalizing e with
  | nil => simp [recordAll]
  | cons d ds ih =>
    simp only [recordAll,recordField_eq,ih,link_members o e,List.append_assoc,← List.filterMap_append,← List.filter_append,
      List.singleton_append]
    split
    · rw [← List.map_append,← List.filter_append,List.singleton_append]
    · rfl

theorem recordConstructor_eq (e : Entity) (d : ConstructorDecl) :
    e.recordConstructor o d =
      ({ e with methods := e.methods ++
          ([d].filter (ConstructorDecl.shown o)).map (ConstructorDecl.drawn e.name) },[]) := by
  by_cases hc : o.showConstructors = true ∧
      Visibility.ofModifiers d.modifiers ∈ o.methodVisibilities
  · simp [recordConstructor,ConstructorDecl.shown,ConstructorDecl.drawn,hc]
  · rw [recordConstructor,if_neg hc]
    have hs : ConstructorDecl.shown o d = false := by
      simpa [ConstructorDecl.shown] using hc
    simp [hs]

theorem recordAll_constructors (e : Entity) (ds : List ConstructorDecl) :
    recordAll (recordConstructor o) e ds =
      ({ e with methods := e.methods ++
          (ds.filter (ConstructorDecl.shown o)).map (ConstructorDecl.drawn e.name) },[]) := by
  induction ds generalizing e with
  | nil => simp [recordAll]
  | cons d ds ih =>
    simp only [recordAll,recordConstructor_eq,ih,List.append_assoc,← List.map_append,← List.filter_append,List.singleton_append,
      List.append_nil]

theorem recordMethod_eq (e : Entity) (d : MethodDecl) :
    e.recordMethod o d =
      ({ e with methods := e.methods ++ ([d].filter (MethodDecl.shown o)).map MethodDecl.drawn },
        if o.showMethodRelationships then
          ([d].filter (MethodDecl.shown o)).flatMap fun d => d.references.map (e.link o .dependency)
        else []) := by
  by_cases hv : Visibility.ofModifiers d.modifiers ∈ o.methodVisibilities
  · simp [recordMethod,MethodDecl.shown,MethodDecl.drawn,MethodDecl.references,hv]
  · simp [recordMethod,MethodDecl.shown,hv]

theorem recordAll_methods (e : Entity) (ds : List MethodDecl) :
    recordAll (recordMethod o) e ds =
      ({ e with methods := e.methods ++ (ds.filter (MethodDecl.shown o)).map MethodDecl.drawn },
        if o.showMethodRelationships then
          (ds.filter (MethodDecl.shown o)).flatMap fun d => d.references.map (e.link o .dependency)
        else []) := by
  induction ds generalizing e with
  | nil => simp [recordAll]
  | cons d ds ih =>
    simp only [recordAll,recordMethod_eq,ih,link_members o e,List.append_assoc,← List.map_append,← List.filter_append,
      List.singleton_append]
    split
    · rw [← List.flatMap_append,← List.filter_append,List.singleton_append]
    · rfl

theorem foldl_recordConstant (e : Entity) (names : List String) :
    names.foldl recordConstant e =
      { e with fields := e.fields ++ names.map fun name => ⟨.pub,true,"",name⟩ } := by
  induction names generalizing e with
  | nil => simp
  | cons name names ih => simp [ih,recordConstant]

theorem foldl_recordComponent (e : Entity) (ps : List Parameter) (hk : e.kind = .record) :
    ps.foldl recordComponent e =
      { e with fields := e.fields ++ ps.map fun p => ⟨.pub,false,p.type.text,p.name⟩ } := by
  induction ps generalizing e with
  | nil => simp
  | cons p ps ih =>
    have hp : e.recordComponent p =
        { e with fields := e.fields ++ [⟨.pub,false,p.type.text,p.name⟩] } := by
      simp [recordComponent,hk]
    have hrest := ih (e.recordComponent p) (by rw [hp]; exact hk)
    simpa [hp] using hrest

end Entity

namespace Header

variable (o : DiagramOptions) (package : String) (imports : List Import) (path : String)

theorem opened_link (h : Header) :
    (h.opened package imports path).link o = linkTo o package imports path := by
  funext c t
  have himports : (h.opened package imports path).imports = bindImports imports := rfl
  simp only [Entity.link,Entity.sourceOf,linkTo,linkSource,himports,get?_bindImports]
  rfl

theorem entity_eq (h : Header) :
    h.entity o package imports path =
      ({ package,kind := h.kind,name := path,imports := importTable imports
         fields := h.drawnFields o,methods := h.drawnMethods o path },
        h.supertypeLinks o package imports path ++ h.fieldLinks o package imports path ++
          h.methodLinks o package imports path) := by
  simp only [entity,Entity.recordAll_fields,Entity.recordAll_constructors,Entity.recordAll_methods,
    Entity.link_members o (h.opened package imports path),opened_link,List.append_nil]
  refine Prod.ext ?_ rfl
  rw [← bindImports_eq_importTable]
  cases hf : h.form with
  | cls => simp [hf,opened,drawnFields,drawnMethods,bindImports]
  | interface => simp [hf,opened,drawnFields,drawnMethods,bindImports]
  | enum => simp [hf,opened,drawnFields,drawnMethods,bindImports,Entity.foldl_recordConstant]
  | record =>
    have hk : h.kind = .record := by simp [kind,hf]
    simp [hf,hk,opened,drawnFields,drawnMethods,bindImports,Entity.foldl_recordComponent]

end Header

theorem containment_eq_nestingLinks (package path : String) :
    containment package path = nestingLinks package path := by
  simp [containment,nestingLinks,Text.isDotted]

namespace Viewpoint

variable (v : Viewpoint) (imports : List Import)

theorem addDeclaration_eq_extend (p : Placement) (doc : Document) :
    v.addDeclaration imports p.path p.declaration.toHeader doc =
      doc.extend (p.entity v.options v.entityPackage imports)
        (p.links v.options v.entityPackage imports) := by
  rw [addDeclaration,Header.entity_eq,containment_eq_nestingLinks]
  simp only [Placement.links,List.append_assoc]
  rfl

theorem addForest_cons (enclosing : Option String) (d : Declaration) (ds : List Declaration)
    (doc : Document) :
    v.addForest imports enclosing (d :: ds) doc =
      let path := joinPath enclosing d.displayName
      v.addForest imports enclosing ds
        (v.addForest imports (some path) d.members (v.addDeclaration imports path d.toHeader doc)) := by
  cases d
  simp [addForest,addTree]

theorem addForest_eq_append (around : List Header) (ds : List Declaration) (doc : Document) :
    v.addForest imports (enclosingPath around) ds doc =
      doc.append (Placement.document v.options v.entityPackage imports
        (Declaration.placementsAmong around ds)) := by
  induction ds using Declaration.forest_induction generalizing around doc with
  | nil => simp [addForest,Declaration.placementsAmong,Placement.document,Document.append]
  | cons h members ds ihm ihs =>
    rw [addForest_cons,Declaration.placementsAmong_cons]
    simp only
    rw [joinPath_enclosingPath,← enclosingPath_append,ihm,ihs]
    have hd := addDeclaration_eq_extend v imports ⟨around,⟨h,members⟩⟩ doc
    simp only [Placement.path,Placement.chain] at hd
    rw [hd,Placement.document_cons,Placement.document_append,List.cons_append]

end Viewpoint

theorem SourceUnit.document_eq (u : SourceUnit) (o : DiagramOptions) (package : Option String) :
    u.document o package = u.reference o package := by
  have h := Viewpoint.addForest_eq_append ⟨package.getD u.package,o⟩ u.imports [] u.types {}
  simpa [SourceUnit.document,SourceUnit.reference,SourceUnit.placements,SourceUnit.packageShown,
    enclosingPath,Document.append,Viewpoint.entityPackage] using h

def Declaration.DrawnAs (d : Declaration) (e : Entity) : Prop :=
  e.kind = d.kind ∧ ∃ around, e.name = dottedPath (around ++ [d.toHeader])

theorem SourceUnit.walk_drawnAs (u : SourceUnit) (o : DiagramOptions) (package : Option String) :
    List.Forall₂ Declaration.DrawnAs u.walk (u.document o package).types := by
  rw [← u.placements_declarations,u.document_eq,SourceUnit.reference,Placement.document,
    List.forall₂_map_left_iff,List.forall₂_map_right_iff,List.forall₂_same]
  intro p _
  exact ⟨rfl,p.enclosing,rfl⟩

end ClassDiagram
