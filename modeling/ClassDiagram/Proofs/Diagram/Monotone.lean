import ClassDiagram.Proofs.Assembly.Layout
import ClassDiagram.Proofs.Diagram.Origins
import Mathlib.Data.List.Flatten

/-!
More options, more diagram. When every choice of one set of options is allowed by another, the document
drawn under the first is found in the document drawn under the second: the same entities, each with some
of the members, in the same order, and some of the links, in the same order.
-/

namespace ClassDiagram

structure DiagramOptions.Within (o p : DiagramOptions) : Prop where
  showPackage : o.showPackage = p.showPackage
  fieldVisibilities : ∀ v ∈ o.fieldVisibilities, v ∈ p.fieldVisibilities
  methodVisibilities : ∀ v ∈ o.methodVisibilities, v ∈ p.methodVisibilities
  showConstructors : o.showConstructors = true → p.showConstructors = true
  showFieldRelationships : o.showFieldRelationships = true → p.showFieldRelationships = true
  showMethodRelationships : o.showMethodRelationships = true → p.showMethodRelationships = true

structure Entity.Within (e f : Entity) : Prop where
  package : e.package = f.package
  kind : e.kind = f.kind
  name : e.name = f.name
  imports : e.imports = f.imports
  fields : e.fields.Sublist f.fields
  methods : e.methods.Sublist f.methods

structure Document.Within (a b : Document) : Prop where
  types : List.Forall₂ Entity.Within a.types b.types
  relationships : a.relationships.Sublist b.relationships

namespace DiagramOptions.Within

variable {o p : DiagramOptions}

theorem field_shown (h : o.Within p) (d : FieldDecl) (hd : d.shown o = true) : d.shown p = true := by
  simp only [FieldDecl.shown,Bool.and_eq_true,decide_eq_true_eq] at hd ⊢
  exact ⟨h.fieldVisibilities _ hd.1,hd.2⟩

theorem method_shown (h : o.Within p) (d : MethodDecl) (hd : d.shown o = true) :
    d.shown p = true := by
  simp only [MethodDecl.shown,decide_eq_true_eq] at hd ⊢
  exact h.methodVisibilities _ hd

theorem constructor_shown (h : o.Within p) (d : ConstructorDecl) (hd : d.shown o = true) :
    d.shown p = true := by
  simp only [ConstructorDecl.shown,Bool.and_eq_true,decide_eq_true_eq] at hd ⊢
  exact ⟨h.showConstructors hd.1,h.methodVisibilities _ hd.2⟩

theorem drawnFields (h : o.Within p) (d : Header) :
    (d.drawnFields o).Sublist (d.drawnFields p) := by
  have hshown := List.monotone_filter_right d.fields h.field_shown
  rw [Header.drawnFields,Header.drawnFields]
  exact ((hshown.filterMap _).append_right _).append_right _

theorem drawnMethods (h : o.Within p) (path : String) (d : Header) :
    (d.drawnMethods o path).Sublist (d.drawnMethods p path) := by
  have hconstructors := List.monotone_filter_right d.constructors h.constructor_shown
  have hmethods := List.monotone_filter_right d.methods h.method_shown
  rw [Header.drawnMethods,Header.drawnMethods]
  exact (hconstructors.map _).append (hmethods.map _)

theorem fieldOrigins (h : o.Within p) (path : String) (d : Header) :
    (d.fieldOrigins o path).Sublist (d.fieldOrigins p path) := by
  rw [Header.fieldOrigins]
  split
  · rename_i ho
    rw [Header.fieldOrigins,if_pos (h.showFieldRelationships ho)]
    exact (List.monotone_filter_right d.fields h.field_shown).map _
  · exact List.nil_sublist _

theorem methodOrigins (h : o.Within p) (path : String) (d : Header) :
    (d.methodOrigins o path).Sublist (d.methodOrigins p path) := by
  rw [Header.methodOrigins]
  split
  · rename_i ho
    rw [Header.methodOrigins,if_pos (h.showMethodRelationships ho)]
    exact (List.monotone_filter_right d.methods h.method_shown).flatMap _
  · exact List.nil_sublist _

theorem origins (h : o.Within p) (q : Placement) : (q.origins o).Sublist (q.origins p) := by
  have hfields := h.fieldOrigins q.path q.declaration.toHeader
  have hmethods := h.methodOrigins q.path q.declaration.toHeader
  exact (hfields.append_left _).append hmethods

theorem entity (h : o.Within p) (package : String) (imports : List Import) (q : Placement) :
    (q.entity o package imports).Within (q.entity p package imports) :=
  ⟨rfl,rfl,rfl,rfl,h.drawnFields _,h.drawnMethods _ _⟩

theorem document (h : o.Within p) (unit : SourceUnit) (package : Option String) :
    (unit.document o package).Within (unit.document p package) := by
  have hpackage : unit.packageShown o package = unit.packageShown p package := by
    simp only [SourceUnit.packageShown,h.showPackage]
  refine ⟨?_,?_⟩
  · rw [unit.document_eq,unit.document_eq,SourceUnit.reference,SourceUnit.reference,hpackage]
    simp only [Placement.document,List.forall₂_map_left_iff,List.forall₂_map_right_iff,
      List.forall₂_same]
    exact fun q _ => h.entity _ _ q
  · rw [unit.relationships_eq_map,unit.relationships_eq_map,hpackage,
      Origin.link_congr h.showPackage]
    exact (List.Sublist.flatMap_right _ fun q _ => h.origins q).map _

end DiagramOptions.Within

theorem options_act_monotonically {o p : DiagramOptions} (h : o.Within p)
    (package : Option String) :
    (∀ unit : SourceUnit, (unit.document o package).Within (unit.document p package)) ∧
    ∀ (a : Assembly) (n : Nat), a.WellFormed n → ∀ s t : Session, s.assembly = a → t.assembly = a →
      s.viewpoint.options = o → t.viewpoint.options = p →
      ∃ d e, s.Draws n package d ∧ t.Draws n package e ∧ d.Within e := by
  refine ⟨fun unit => h.document unit package,?_⟩
  rintro a n w s t hs ht rfl rfl
  obtain ⟨unit,_,hdraws⟩ := Session.draws_of_wellFormed w
  exact ⟨_,_,hdraws s package hs,hdraws t package ht,h.document unit package⟩

def sparse : DiagramOptions :=
  { fieldVisibilities := [.pub],methodVisibilities := [.prot,.pub],showConstructors := false
    showFieldRelationships := false }

def garage : SourceUnit :=
  { package := "city",imports := [{ name := "Car",qualifiedName := "fleet.Car" }]
    types := [{ form := .cls,name := "Garage"
                fields := [⟨["private"],.named "Key" [] none,[⟨"key","Key"⟩]⟩,
                  ⟨["public"],.named "Car" [] none,[⟨"cars","Car[]"⟩]⟩]
                constructors := [⟨["public"],"Garage",[]⟩]
                methods := [⟨["public"],.named "Car" [] none,"next",[]⟩,
                  ⟨[],.ofText "void","lock",[⟨[],.named "Key" [] none,"key"⟩]⟩]
                members := [{ form := .enum,name := "Level",constants := ["LOW","HIGH"] }] }] }

theorem options_act_monotonically_garage :
    sparse.Within {} ∧ (garage.document sparse none).Within (garage.document {} none) ∧
    (garage.document sparse none).relationships.length = 2 ∧
    (garage.document {} none).relationships.length = 6 ∧
    ∃ d e, Session.Draws ⟨garage.assembled,{},⟨"",sparse⟩⟩ 0 none d ∧
      Session.Draws { assembly := garage.assembled } 0 none e ∧ d.Within e := by
  have h : sparse.Within {} := by
    refine ⟨rfl,?_,?_,?_,?_,?_⟩ <;> decide
  obtain ⟨hunits,hsessions⟩ := options_act_monotonically h none
  exact ⟨h,hunits garage,rfl,rfl,
    hsessions _ 0 garage.assembled_represents.wellFormed _ _ rfl rfl rfl rfl⟩

end ClassDiagram
