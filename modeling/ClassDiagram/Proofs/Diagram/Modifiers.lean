import ClassDiagram.Proofs.Diagram.Reference

/-!
The modifiers that a diagram can tell apart: those that grant a visibility, `static` and `abstract`. A
source file whose other modifiers are left out has the same document.
-/

namespace ClassDiagram

def isTelling (word : String) : Bool :=
  (Visibility.ofModifier? word).isSome || word == "static" || word == "abstract"

def telling (modifiers : List String) : List String := modifiers.filter isTelling

theorem ofModifiers_telling (modifiers : List String) :
    Visibility.ofModifiers (telling modifiers) = Visibility.ofModifiers modifiers := by
  have hfind : (telling modifiers).findSome? Visibility.ofModifier? =
      modifiers.findSome? Visibility.ofModifier? := by
    induction modifiers with
    | nil => rfl
    | cons word rest ih =>
      rw [telling,List.filter_cons,← telling]
      cases hw : Visibility.ofModifier? word with
      | none =>
        rw [List.findSome?_cons,hw]
        split
        · rw [List.findSome?_cons,hw]
          exact ih
        · exact ih
      | some v =>
        rw [if_pos (by simp [isTelling,hw]),List.findSome?_cons,List.findSome?_cons,hw]
  rw [Visibility.ofModifiers,Visibility.ofModifiers,hfind]

theorem contains_telling (modifiers : List String) {word : String} (h : isTelling word = true) :
    (telling modifiers).contains word = modifiers.contains word := by
  rw [Bool.eq_iff_iff,List.contains_iff_mem,List.contains_iff_mem,telling,List.mem_filter]
  exact ⟨fun hmem => hmem.1,fun hmem => ⟨hmem,h⟩⟩

theorem static_telling (modifiers : List String) :
    (telling modifiers).contains "static" = modifiers.contains "static" :=
  contains_telling modifiers rfl

theorem abstract_telling (modifiers : List String) :
    (telling modifiers).contains "abstract" = modifiers.contains "abstract" :=
  contains_telling modifiers rfl

def FieldDecl.outlined (d : FieldDecl) : FieldDecl := { d with modifiers := telling d.modifiers }

def Parameter.outlined (p : Parameter) : Parameter := { p with modifiers := telling p.modifiers }

def ConstructorDecl.outlined (d : ConstructorDecl) : ConstructorDecl :=
  { d with modifiers := telling d.modifiers,parameters := d.parameters.map Parameter.outlined }

def MethodDecl.outlined (d : MethodDecl) : MethodDecl :=
  { d with modifiers := telling d.modifiers,parameters := d.parameters.map Parameter.outlined }

def Header.outlined (h : Header) : Header :=
  { h with
    modifiers := telling h.modifiers
    fields := h.fields.map FieldDecl.outlined
    constructors := h.constructors.map ConstructorDecl.outlined
    methods := h.methods.map MethodDecl.outlined
    components := h.components.map Parameter.outlined }

mutual

def Declaration.outlined : Declaration → Declaration
  | ⟨h, members⟩ => ⟨h.outlined,Declaration.outlinedAll members⟩

def Declaration.outlinedAll : List Declaration → List Declaration
  | [] => []
  | d :: ds => d.outlined :: Declaration.outlinedAll ds

end

def SourceUnit.outlined (u : SourceUnit) : SourceUnit :=
  { u with types := u.types.map Declaration.outlined }

section Members

variable (o : DiagramOptions)

theorem FieldDecl.shown_outlined (d : FieldDecl) : d.outlined.shown o = d.shown o := by
  simp only [shown,outlined,ofModifiers_telling]

theorem FieldDecl.drawn?_outlined (d : FieldDecl) : d.outlined.drawn? = d.drawn? := by
  simp only [drawn?,outlined,ofModifiers_telling,static_telling]

theorem Parameter.types_outlined (ps : List Parameter) :
    (ps.map outlined).map (·.type) = ps.map (·.type) := by
  rw [List.map_map]
  rfl

theorem Parameter.texts_outlined (ps : List Parameter) :
    (ps.map outlined).map (·.type.text) = ps.map (·.type.text) := by
  rw [List.map_map]
  rfl

theorem ConstructorDecl.shown_outlined (d : ConstructorDecl) : d.outlined.shown o = d.shown o := by
  simp only [shown,outlined,ofModifiers_telling]

theorem ConstructorDecl.drawn_outlined (path : String) (d : ConstructorDecl) :
    d.outlined.drawn path = d.drawn path := by
  simp only [drawn,outlined,ofModifiers_telling,static_telling,abstract_telling,
    Parameter.texts_outlined]

theorem MethodDecl.shown_outlined (d : MethodDecl) : d.outlined.shown o = d.shown o := by
  simp only [shown,outlined,ofModifiers_telling]

theorem MethodDecl.drawn_outlined (d : MethodDecl) : d.outlined.drawn = d.drawn := by
  simp only [drawn,outlined,ofModifiers_telling,static_telling,abstract_telling,
    Parameter.texts_outlined]

theorem MethodDecl.references_outlined (d : MethodDecl) : d.outlined.references = d.references := by
  simp only [references,outlined,Parameter.types_outlined]

end Members

namespace Header

variable (o : DiagramOptions) (package : String) (imports : List Import) (path : String)

theorem kind_outlined (h : Header) : h.outlined.kind = h.kind := by
  simp only [kind,outlined,abstract_telling]

theorem drawnFields_outlined (h : Header) : h.outlined.drawnFields o = h.drawnFields o := by
  have hshown : FieldDecl.shown o ∘ FieldDecl.outlined = FieldDecl.shown o :=
    funext (FieldDecl.shown_outlined o)
  have hdrawn : FieldDecl.drawn? ∘ FieldDecl.outlined = FieldDecl.drawn? :=
    funext FieldDecl.drawn?_outlined
  simp only [drawnFields,outlined,List.filter_map,List.filterMap_map,List.map_map,hshown,hdrawn]
  rfl

theorem drawnMethods_outlined (h : Header) :
    h.outlined.drawnMethods o path = h.drawnMethods o path := by
  have hconstructor : ConstructorDecl.shown o ∘ ConstructorDecl.outlined = ConstructorDecl.shown o :=
    funext (ConstructorDecl.shown_outlined o)
  have hmade : ConstructorDecl.drawn path ∘ ConstructorDecl.outlined = ConstructorDecl.drawn path :=
    funext (ConstructorDecl.drawn_outlined path)
  have hmethod : MethodDecl.shown o ∘ MethodDecl.outlined = MethodDecl.shown o :=
    funext (MethodDecl.shown_outlined o)
  have hdrawn : MethodDecl.drawn ∘ MethodDecl.outlined = MethodDecl.drawn :=
    funext MethodDecl.drawn_outlined
  simp only [drawnMethods,outlined,List.filter_map,List.map_map,hconstructor,hmade,hmethod,hdrawn]

theorem fieldLinks_outlined (h : Header) :
    h.outlined.fieldLinks o package imports path = h.fieldLinks o package imports path := by
  have hshown : FieldDecl.shown o ∘ FieldDecl.outlined = FieldDecl.shown o :=
    funext (FieldDecl.shown_outlined o)
  simp only [fieldLinks,outlined,List.filter_map,List.map_map,hshown]
  rfl

theorem methodLinks_outlined (h : Header) :
    h.outlined.methodLinks o package imports path = h.methodLinks o package imports path := by
  have hshown : MethodDecl.shown o ∘ MethodDecl.outlined = MethodDecl.shown o :=
    funext (MethodDecl.shown_outlined o)
  simp only [methodLinks,outlined,List.filter_map,List.flatMap_map,hshown,
    MethodDecl.references_outlined]

theorem entity_outlined (h : Header) :
    h.outlined.entity o package imports path = h.entity o package imports path := by
  rw [entity_eq,entity_eq,kind_outlined,drawnFields_outlined,drawnMethods_outlined,
    fieldLinks_outlined,methodLinks_outlined]
  rfl

end Header

theorem Declaration.outlinedAll_eq_map (ds : List Declaration) :
    outlinedAll ds = ds.map outlined := by
  induction ds with
  | nil => rfl
  | cons d ds ih => rw [outlinedAll,ih,List.map_cons]

theorem Declaration.outlined_eq (d : Declaration) :
    d.outlined = ⟨d.toHeader.outlined,d.members.map outlined⟩ := by
  cases d
  rw [outlined,outlinedAll_eq_map]

theorem Viewpoint.addForest_outlined (v : Viewpoint) (imports : List Import)
    (enclosing : Option String) (ds : List Declaration) (doc : Document) :
    v.addForest imports enclosing (ds.map Declaration.outlined) doc =
      v.addForest imports enclosing ds doc := by
  induction ds using Declaration.forest_induction generalizing enclosing doc with
  | nil => rfl
  | cons h members ds ihm ihs =>
    have hadd : ∀ path doc, v.addDeclaration imports path h.outlined doc =
        v.addDeclaration imports path h doc := by
      intro path doc
      rw [addDeclaration,Header.entity_outlined]
      rfl
    rw [List.map_cons,addForest_cons,addForest_cons,Declaration.outlined_eq]
    simp only [hadd,ihm,ihs]
    rfl

theorem SourceUnit.document_outlined (u : SourceUnit) (o : DiagramOptions)
    (package : Option String) : u.outlined.document o package = u.document o package :=
  Viewpoint.addForest_outlined ⟨package.getD u.package,o⟩ u.imports none u.types {}

end ClassDiagram
