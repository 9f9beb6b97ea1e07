import ClassDiagram.Proofs.Assembly.Layout

/-!
How declarations are split over source files does not change the diagram. The placements of a list of
declarations are those of each declaration, one after another, so the document of a file is put together
from the documents of its parts; and of a list of documents only what they hold together is drawn.
-/

namespace ClassDiagram

def Document.joined (ds : List Document) : Document :=
  { types := ds.flatMap Document.types,relationships := ds.flatMap Document.relationships }

structure SourceUnit.SplitInto (whole : SourceUnit) (parts : List SourceUnit) : Prop where
  package : ∀ u ∈ parts, u.package = whole.package
  imports : ∀ u ∈ parts, u.imports = whole.imports
  types : whole.types = parts.flatMap SourceUnit.types

theorem Declaration.placementsAmong_eq_flatMap (around : List Header) (ds : List Declaration) :
    placementsAmong around ds = ds.flatMap (placementsIn around) := by
  induction ds with
  | nil => rw [placementsAmong,List.flatMap_nil]
  | cons d ds ih => rw [placementsAmong,ih,List.flatMap_cons]

theorem Placement.document_flatMap {α : Type} (o : DiagramOptions) (package : String)
    (imports : List Import) (f : α → List Placement) (xs : List α) :
    document o package imports (xs.flatMap f) =
      Document.joined (xs.map fun x => document o package imports (f x)) := by
  simp only [document,Document.joined,List.map_flatMap,List.flatMap_assoc,List.flatMap_map]

namespace SourceUnit.SplitInto

variable {whole : SourceUnit} {parts : List SourceUnit}

theorem placements_eq (h : whole.SplitInto parts) :
    whole.placements = parts.flatMap SourceUnit.placements := by
  have hunit : ∀ u : SourceUnit, u.placements = u.types.flatMap (Declaration.placementsIn []) :=
    fun u => Declaration.placementsAmong_eq_flatMap [] u.types
  rw [hunit,h.types,List.flatMap_assoc]
  exact List.flatMap_congr fun u _ => (hunit u).symm

theorem document_eq_joined (h : whole.SplitInto parts) (o : DiagramOptions) (package : Option String) :
    whole.document o package = Document.joined (parts.map fun u => u.document o package) := by
  rw [whole.document_eq,reference,h.placements_eq,Placement.document_flatMap]
  refine congrArg Document.joined (List.map_congr_left fun u hu => ?_)
  have hpackage : whole.packageShown o package = u.packageShown o package := by
    rw [packageShown,packageShown,h.package u hu]
  rw [u.document_eq,reference,hpackage,h.imports u hu]

end SourceUnit.SplitInto

theorem uniqueRelationships_joined (ds : List Document) :
    uniqueRelationships [Document.joined ds] = uniqueRelationships ds := by
  rw [uniqueRelationships,uniqueRelationships,List.flatMap_singleton]
  rfl

theorem PlantUml.render_joined (ds : List Document) (title : Option String) :
    render [Document.joined ds] title = render ds title := by
  have htypes : [Document.joined ds].flatMap Document.types = ds.flatMap Document.types := by
    rw [List.flatMap_singleton]
    rfl
  rw [render,render,lines,lines,uniqueRelationships_joined,htypes]

theorem draws_of_represents {s : Session} {n : Nat} {unit : SourceUnit}
    (r : s.assembly.Represents n unit) {o : DiagramOptions} (ho : s.viewpoint.options = o)
    (package : Option String) : s.Draws n package (unit.document o package) := by
  subst ho
  exact s.buildDocument_of_represents r package

theorem splitting_changes_nothing (o : DiagramOptions) (package title : Option String) :
    (∀ (whole : SourceUnit) (parts : List SourceUnit), whole.SplitInto parts →
      whole.document o package = Document.joined (parts.map fun u => u.document o package) ∧
        PlantUml.render [whole.document o package] title =
          PlantUml.render (parts.map fun u => u.document o package) title) ∧
    (∀ (s s₁ s₂ : Session) (n n₁ n₂ : Nat) (whole first second : SourceUnit),
      s.viewpoint.options = o → s₁.viewpoint.options = o → s₂.viewpoint.options = o →
      s.assembly.Represents n whole → s₁.assembly.Represents n₁ first →
      s₂.assembly.Represents n₂ second → whole.SplitInto [first,second] →
      ∃ d d₁ d₂, s.Draws n package d ∧ s₁.Draws n₁ package d₁ ∧ s₂.Draws n₂ package d₂ ∧
        d.types = d₁.types ++ d₂.types ∧ d.relationships = d₁.relationships ++ d₂.relationships ∧
        PlantUml.render [d] title = PlantUml.render [d₁,d₂] title) ∧
    ∀ ds : List Document, PlantUml.render ds title = PlantUml.render [Document.joined ds] title := by
  have hdraw : ∀ (whole : SourceUnit) (parts : List SourceUnit), whole.SplitInto parts →
      PlantUml.render [whole.document o package] title =
        PlantUml.render (parts.map fun u => u.document o package) title := by
    intro whole parts h
    rw [h.document_eq_joined,PlantUml.render_joined]
  refine ⟨fun whole parts h => ⟨h.document_eq_joined o package,hdraw whole parts h⟩,?_,fun ds =>
    (PlantUml.render_joined ds title).symm⟩
  intro s s₁ s₂ n n₁ n₂ whole first second h₀ h₁ h₂ r r₁ r₂ h
  have hdoc := h.document_eq_joined o package
  refine ⟨_,_,_,draws_of_represents r h₀ package,draws_of_represents r₁ h₁ package,
    draws_of_represents r₂ h₂ package,?_,?_,?_⟩
  · rw [hdoc]
    simp [Document.joined]
  · rw [hdoc]
    simp [Document.joined]
  · have htext := hdraw whole [first,second] h
    simpa only [List.map_cons,List.map_nil] using htext

def catalogue (types : List Declaration) : SourceUnit :=
  { package := "shop",imports := [{ name := "List",qualifiedName := "java.util.List" }],types }

def shelf : Declaration :=
  { form := .cls,name := "Shelf"
    fields := [⟨[],.named "List" [.named "Book" [] none] none,[⟨"books","List<Book>"⟩]⟩,
      ⟨[],.named "List" [.named "Book" [] none] none,[⟨"lent","List<Book>"⟩]⟩]
    members := [{ form := .interface,name := "Reader" }] }

def branch : Declaration := { form := .record,name := "Branch",implemented := [.named "Place" [] none] }

theorem splitting_changes_nothing_catalogue :
    (catalogue [shelf,branch]).SplitInto [catalogue [shelf],catalogue [branch]] ∧
    PlantUml.render [(catalogue [shelf,branch]).document {} none] none =
      PlantUml.render [(catalogue [shelf]).document {} none,(catalogue [branch]).document {} none]
        none ∧
    ∃ d d₁ d₂, Session.Draws { assembly := (catalogue [shelf,branch]).assembled } 0 none d ∧
      Session.Draws { assembly := (catalogue [shelf]).assembled } 0 none d₁ ∧
      Session.Draws { assembly := (catalogue [branch]).assembled } 0 none d₂ ∧
      d.types = d₁.types ++ d₂.types ∧ d.relationships = d₁.relationships ++ d₂.relationships ∧
      PlantUml.render [d] none = PlantUml.render [d₁,d₂] none := by
  have hsplit : (catalogue [shelf,branch]).SplitInto [catalogue [shelf],catalogue [branch]] :=
    ⟨by simp [catalogue],by simp [catalogue],rfl⟩
  obtain ⟨hunits,hsessions,_⟩ := splitting_changes_nothing {} none none
  refine ⟨hsplit,?_,?_⟩
  · have htext := (hunits _ _ hsplit).2
    simpa only [List.map_cons,List.map_nil] using htext
  · exact hsessions _ _ _ 0 0 0 _ _ _ rfl rfl rfl (SourceUnit.assembled_represents _)
      (SourceUnit.assembled_represents _) (SourceUnit.assembled_represents _) hsplit

end ClassDiagram
