import ClassDiagram.Proofs.Assembly.Layout
import ClassDiagram.Proofs.Diagram.Origins

/-!
Hiding packages erases them. The documents drawn with and without packages have the same entities and the
same links, but for names: where packages are shown, a name has the package in front of it, unless it is
a reference to an imported type, which is written with the qualified name it was imported by.
-/

namespace ClassDiagram

theorem get?_importTable (imports : List Import) (name : String) :
    (importTable imports).get? name = lastImport? imports name := by
  rw [← bindImports_eq_importTable,get?_bindImports]

theorem qualify_empty (name : String) : qualify "" name = name := by
  simp [qualify]

structure Origin.Erases (package : String) (table : ImportTable) (origin : Origin)
    (shown hidden : Relationship) : Prop where
  connector : shown.connector = hidden.connector
  target : shown.target = qualify package hidden.target
  imported : ∀ base qualified, origin.baseName? = some base → table.get? base = some qualified →
    shown.source = qualified ++ origin.suffix ∧ hidden.source = base ++ origin.suffix
  unimported : (∀ base qualified, origin.baseName? = some base → table.get? base ≠ some qualified) →
    shown.source = qualify package hidden.source

structure Entity.ErasedTo (package : String) (table : ImportTable) (shown hidden : Entity) : Prop where
  package : shown.package = package
  hiddenPackage : hidden.package = ""
  kind : shown.kind = hidden.kind
  name : shown.name = hidden.name
  table : shown.imports = table
  imports : shown.imports = hidden.imports
  fields : shown.fields = hidden.fields
  methods : shown.methods = hidden.methods

structure Document.ErasedTo (package : String) (table : ImportTable) (origins : List Origin)
    (shown hidden : Document) : Prop where
  types : List.Forall₂ (Entity.ErasedTo package table) shown.types hidden.types
  length : shown.relationships.length = hidden.relationships.length
  relationships : List.Forall₂ (fun origin r => origin.Erases package table r.1 r.2) origins
    (shown.relationships.zip hidden.relationships)

namespace DiagramOptions

def withPackages (o : DiagramOptions) : DiagramOptions := { o with showPackage := true }

def withoutPackages (o : DiagramOptions) : DiagramOptions := { o with showPackage := false }

end DiagramOptions

theorem linkSource_imported (o : DiagramOptions) (package : String) {imports : List Import}
    {t : TypeRef} {base qualified : String} (hbase : t.baseName = some base)
    (himport : lastImport? imports base = some qualified) :
    linkSource o package imports t = (if o.showPackage then qualified else base) ++ t.suffix := by
  simp only [linkSource,hbase,himport]

theorem linkSource_unimported (o : DiagramOptions) (package : String) {imports : List Import} {t : TypeRef}
    (h : ∀ base qualified, t.baseName = some base → lastImport? imports base ≠ some qualified) :
    linkSource o package imports t = qualify package t.text := by
  rw [linkSource]
  cases hbase : t.baseName with
  | none => rfl
  | some base =>
    cases himport : lastImport? imports base with
    | none => simp only [himport]
    | some qualified => exact absurd himport (h base qualified hbase)

theorem Origin.erases (o : DiagramOptions) (package : String) (imports : List Import)
    (origin : Origin) :
    origin.Erases package (importTable imports) (origin.link o.withPackages package imports)
      (origin.link o.withoutPackages "" imports) := by
  cases origin with
  | nesting path =>
    refine ⟨rfl,?_,fun _ _ hbase => ?_,fun _ => ?_⟩
    · simp only [link,qualify_empty]
    · cases hbase
    · simp only [link,qualify_empty]
  | reference c path t =>
    refine ⟨rfl,?_,fun base qualified hbase himport => ?_,fun h => ?_⟩
    · simp only [link,Header.linkTo,qualify_empty]
    · rw [get?_importTable] at himport
      simp only [link,Header.linkTo,linkSource_imported _ _ hbase himport]
      exact ⟨rfl,rfl⟩
    · simp only [get?_importTable] at h
      simp only [link,Header.linkTo,linkSource_unimported _ _ h,qualify_empty]

theorem SourceUnit.document_erased (unit : SourceUnit) (o : DiagramOptions)
    (package : Option String) :
    Document.ErasedTo (package.getD unit.package) (importTable unit.imports) (unit.origins o)
      (unit.document o.withPackages package) (unit.document o.withoutPackages package) := by
  -- The origins do not depend on whether packages are shown, so the links are drawn in step.
  have hshown : (unit.document o.withPackages package).relationships =
      (unit.origins o).map
        (Origin.link o.withPackages (package.getD unit.package) unit.imports) :=
    unit.relationships_eq_map o.withPackages package
  have hhidden : (unit.document o.withoutPackages package).relationships =
      (unit.origins o).map (Origin.link o.withoutPackages "" unit.imports) :=
    unit.relationships_eq_map o.withoutPackages package
  refine ⟨?_,?_,?_⟩
  · rw [unit.document_eq,unit.document_eq,reference,reference]
    simp only [Placement.document,List.forall₂_map_left_iff,List.forall₂_map_right_iff,
      List.forall₂_same]
    exact fun p _ => ⟨rfl,rfl,rfl,rfl,rfl,rfl,rfl,rfl⟩
  · rw [hshown,hhidden,List.length_map,List.length_map]
  · rw [hshown,hhidden,List.zip_map',List.forall₂_map_right_iff,List.forall₂_same]
    exact fun origin _ => origin.erases o _ _

theorem hidden_packages_are_erased (o : DiagramOptions) (package : Option String) :
    (∀ unit : SourceUnit,
      Document.ErasedTo (package.getD unit.package) (importTable unit.imports) (unit.origins o)
        (unit.document o.withPackages package) (unit.document o.withoutPackages package)) ∧
    ∀ (a : Assembly) (n : Nat), a.WellFormed n → ∀ s t : Session, s.assembly = a → t.assembly = a →
      s.viewpoint.options = o.withPackages → t.viewpoint.options = o.withoutPackages →
      ∃ unit d e, a.Represents n unit ∧ s.Draws n package d ∧ t.Draws n package e ∧
        Document.ErasedTo (package.getD unit.package) (importTable unit.imports) (unit.origins o)
          d e := by
  refine ⟨fun unit => unit.document_erased o package,fun a n w s t hs ht hso hto => ?_⟩
  obtain ⟨unit,r,hdraws⟩ := Session.draws_of_wellFormed w
  have hshown := hdraws s package hs
  have hhidden := hdraws t package ht
  rw [hso] at hshown
  rw [hto] at hhidden
  exact ⟨unit,_,_,r,hshown,hhidden,unit.document_erased o package⟩

def ledger : SourceUnit :=
  { package := "bank",imports := [{ name := "Map",qualifiedName := "java.util.Map" }]
    types := [{ form := .cls,name := "Ledger",typeParameters := ["T"]
                fields := [⟨["private"],.named "Map" [.ofText "String",.ofText "T"] none,
                  [⟨"entries","Map<String, T>"⟩]⟩]
                constructors := [⟨["public"],"Ledger",[]⟩]
                members := [{ form := .record,name := "Entry"
                              implemented := [.named "Row" [] none] }] }] }

theorem hidden_packages_are_erased_ledger :
    (ledger.document (DiagramOptions.withPackages {}) none).relationships =
      [⟨.composition,"java.util.Map<String, T>","bank.Ledger<T>"⟩,
        ⟨.containment,"bank.Ledger<T>.Entry","bank.Ledger<T>"⟩,
        ⟨.realization,"bank.Row","bank.Ledger<T>.Entry"⟩] ∧
    (ledger.document (DiagramOptions.withoutPackages {}) none).relationships =
      [⟨.composition,"Map<String, T>","Ledger<T>"⟩,⟨.containment,"Ledger<T>.Entry","Ledger<T>"⟩,
        ⟨.realization,"Row","Ledger<T>.Entry"⟩] ∧
    ledger.assembled.WellFormed 0 ∧
    ∃ unit d e, ledger.assembled.Represents 0 unit ∧
      Session.Draws ⟨ledger.assembled,{},⟨"",DiagramOptions.withPackages {}⟩⟩ 0 none d ∧
      Session.Draws ⟨ledger.assembled,{},⟨"",DiagramOptions.withoutPackages {}⟩⟩ 0 none e ∧
      Document.ErasedTo unit.package (importTable unit.imports) (unit.origins {}) d e := by
  have w := ledger.assembled_represents.wellFormed
  exact ⟨by decide,by decide,w,(hidden_packages_are_erased {} none).2 _ 0 w _ _ rfl rfl rfl rfl⟩

end ClassDiagram
