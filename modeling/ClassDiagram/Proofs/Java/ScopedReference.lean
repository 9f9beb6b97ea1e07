import ClassDiagram.Proofs.Diagram.Origins
import ClassDiagram.Proofs.Java.TypeReading

/-!
References that are written with a scope, such as `java.sql.Date`. Only the last name of such a reference
is looked up among the imports. So the link names the class that is written exactly when that name is not
imported, or is imported under a qualified name that ends in what is written.
-/

namespace ClassDiagram

def written (scope name : String) : String := scope ++ "." ++ name

def NamesClass (qualified scope name : String) : Prop :=
  qualified = written scope name ∨ '.' :: (written scope name).toList <:+ qualified.toList

instance (qualified scope name : String) : Decidable (NamesClass qualified scope name) :=
  inferInstanceAs (Decidable (_ ∨ _))

theorem namesClass_qualify (package scope name : String) :
    NamesClass (qualify package (written scope name)) scope name := by
  rw [qualify]
  split
  · exact .inl rfl
  · refine .inr ⟨package.toList,?_⟩
    simp [String.toList_append]

def Entity.KeepsClass (o : DiagramOptions) (e : Entity) (c : Connector) (t : TypeRef)
    (scope name : String) : Prop :=
  (∃ qualified, e.imports.get? name = some qualified ∧ NamesClass qualified scope name ∧
      (e.link o c t).source = qualified ++ t.suffix) ∨
    (e.link o c t).source = qualify e.package t.text

theorem qualify_append (package front back : String) :
    qualify package (front ++ back) = qualify package front ++ back := by
  simp only [qualify]
  split
  · rfl
  · simp only [String.append_assoc]

theorem Entity.link_source {o : DiagramOptions} (ho : o.showPackage = true) {t : TypeRef}
    {name : String} (hname : t.baseName = some name) (e : Entity) (c : Connector) :
    (e.link o c t).source = match e.imports.get? name with
      | some qualified => qualified ++ t.suffix
      | none => qualify e.package t.text := by
  simp only [link,sourceOf,hname,ho,if_true]
  cases e.imports.get? name <;> rfl

theorem Entity.keepsClass_iff {o : DiagramOptions} (ho : o.showPackage = true) {t : TypeRef}
    {scope name : String} (hname : t.baseName = some name)
    (htext : t.text = written scope name ++ t.suffix) (e : Entity) (c : Connector) :
    e.KeepsClass o c t scope name ↔
      ∀ qualified, e.imports.get? name = some qualified → NamesClass qualified scope name := by
  have hsource := e.link_source ho hname c
  cases himport : e.imports.get? name with
  | none =>
    rw [himport] at hsource
    constructor
    · intro _ q hq
      cases hq
    · intro _
      exact .inr hsource
  | some qualified =>
    rw [himport] at hsource
    constructor
    · rintro (⟨q,hq,hnames,_⟩ | hliteral) q' hq'
      · cases hq'
        rw [himport] at hq
        cases hq
        exact hnames
      · cases hq'
        -- The imported name is then what is written, put in the package of the entity.
        rw [hsource,htext,qualify_append] at hliteral
        rw [(String.append_left_inj t.suffix).mp hliteral]
        exact namesClass_qualify _ _ _
    · intro h
      exact .inl ⟨qualified,himport,h qualified rfl,hsource⟩

namespace Java

inductive Scoped : Node → String → String → Prop
  | name {n last : Node} {scope : List Node} {segments : List String} :
      n.kind = .scopedTypeIdentifier → n.meaningful = scope ++ [last] → scope ≠ [] →
      last.kind = .typeIdentifier → allOk (scope.map typeText) = .ok segments →
      Scoped n (".".intercalate segments) last.text
  | generic {n base : Node} {scope name : String} :
      n.kind = .genericType → n.children.find? isGenericBase = some base →
      Scoped base scope name → Scoped n scope name
  | annotated {n c : Node} {scope name : String} :
      n.kind = .annotatedType → n.meaningful.getLast? = some c →
      Scoped c scope name → Scoped n scope name

theorem Scoped.typeText_eq {n : Node} {scope name text : String} (h : Scoped n scope name)
    (ht : typeText n = .ok text) :
    ∃ rest, text = written scope (Text.singleSpaced name) ++ rest := by
  induction h generalizing text with
  | @name n last scope segments hk hm hs hl hsegments =>
    have hlast : typeText last = .ok (Text.singleSpaced last.text) :=
      typeText_plain (by rw [hl]; rfl)
    have hne : segments ≠ [] := by
      have hlength := (allOk_map_eq_ok.mp hsegments).length_eq
      rw [← List.length_pos_iff,← hlength]
      exact List.length_pos_iff.mpr hs
    rw [typeText_scoped hk,hm,List.map_append,allOk_append,hsegments] at ht
    simp only [List.map_cons,List.map_nil,allOk,hlast,bind,Except.bind,pure,Except.pure,
      Except.ok.injEq] at ht
    refine ⟨"",?_⟩
    rw [← ht,String.intercalate_append_of_ne_nil hne (by simp)]
    simp [written]
  | generic hk hbase _ ih =>
    rw [typeText_generic hk,hbase] at ht
    simp only [bind_eq_ok,pure_eq_ok] at ht
    obtain ⟨base,hb,arguments,_,rfl⟩ := ht
    obtain ⟨rest,rfl⟩ := ih hb
    exact ⟨rest ++ TypeRef.angled arguments,by rw [String.append_assoc]⟩
  | annotated hk hlast _ ih =>
    rw [typeText_annotated hk,meaningOf,hlast] at ht
    exact ih ht

theorem Scoped.typeRef_eq {n : Node} {scope name : String} {t : TypeRef} (h : Scoped n scope name)
    (ht : typeRef n = .ok t) :
    t.baseName = some name ∧ ∃ rest, t.text = written scope (Text.singleSpaced name) ++ rest := by
  induction h generalizing t with
  | @name n last scope segments hk hm hs hl hsegments =>
    have hscoped : Scoped n (".".intercalate segments) last.text := .name hk hm hs hl hsegments
    rw [typeRef_named (.inr hk),simpleName_of_last hk hm hl] at ht
    simp only [bind_eq_ok,pure_eq_ok,Except.ok.injEq] at ht
    obtain ⟨text,htext,_,rfl,rfl⟩ := ht
    exact ⟨rfl,hscoped.typeText_eq htext⟩
  | @generic n base scope name hk hbase hscoped ih =>
    rw [typeRef_generic hk,hbase] at ht
    simp only [bind_eq_ok,pure_eq_ok,map_eq_ok] at ht
    obtain ⟨text,htext,_,⟨simple,hsimple,rfl⟩,arguments,_,rfl⟩ := ht
    refine ⟨?_,(Scoped.generic hk hbase hscoped).typeText_eq htext⟩
    -- A generic base that has a scope is a plain qualified name.
    have hkind := List.find?_some hbase
    cases hscoped with
    | name hb hm _ hl _ =>
      rw [simpleName_of_last hb hm hl] at hsimple
      exact congrArg some (Except.ok.inj hsimple).symm
    | generic hb => simp [isGenericBase,hb] at hkind
    | annotated hb => simp [isGenericBase,hb] at hkind
  | annotated hk hlast _ ih =>
    rw [typeRef_annotated hk,meaningOf,hlast] at ht
    exact ih ht

theorem scoped_reference_follows_import {n : Node} {scope name : String} {t : TypeRef}
    (hn : Scoped n scope name) (ht : typeRef n = .ok t) {o : DiagramOptions}
    (ho : o.showPackage = true) :
    (∃ rest, t.text = written scope (Text.singleSpaced name) ++ rest) ∧
    (∀ (e : Entity) (c : Connector), (e.link o c t).source = match e.imports.get? name with
      | some qualified => qualified ++ t.suffix
      | none => qualify e.package t.text) ∧
    (∀ (unit : SourceUnit) (package : Option String) (c : Connector) (path : String),
      .reference c path t ∈ unit.origins o →
      ⟨c,match lastImport? unit.imports name with
          | some qualified => qualified ++ t.suffix
          | none => qualify (package.getD unit.package) t.text,
        qualify (package.getD unit.package) path⟩ ∈ (unit.document o package).relationships) ∧
    (t.text = written scope name ++ t.suffix → ∀ (e : Entity) (c : Connector),
      e.KeepsClass o c t scope name ↔
        ∀ qualified, e.imports.get? name = some qualified → NamesClass qualified scope name) := by
  obtain ⟨hname,htext⟩ := hn.typeRef_eq ht
  refine ⟨htext,fun e c => e.link_source ho hname c,fun unit package c path hmem => ?_,
    fun hwritten e c => e.keepsClass_iff ho hname hwritten c⟩
  rw [unit.relationships_eq_map]
  refine List.mem_map.mpr ⟨_,hmem,?_⟩
  have hpackage : unit.packageShown o package = package.getD unit.package := by
    simp only [SourceUnit.packageShown,ho,if_true]
  simp only [Origin.link,Header.linkTo,linkSource,hname,ho,if_true,hpackage]
  cases lastImport? unit.imports name <;> rfl

def dot : Node := { kind := .other ".",named := false,text := "." }

def javaSql : Node :=
  { kind := .scopedTypeIdentifier,text := "java.sql"
    children := [{ kind := .typeIdentifier,text := "java" },dot,
      { kind := .typeIdentifier,text := "sql" }] }

def sqlDate : Node :=
  { kind := .scopedTypeIdentifier,role := some .type,text := "java.sql.Date"
    children := [javaSql,dot,{ kind := .typeIdentifier,text := "Date" }] }

def sqlDateRef : TypeRef := { text := "java.sql.Date",baseName := some "Date" }

theorem sqlDate_scoped : Scoped sqlDate "java.sql" "Date" :=
  @Scoped.name sqlDate { kind := .typeIdentifier,text := "Date" } [javaSql] ["java.sql"] rfl rfl
    (by simp) rfl rfl

def statementOf (importedDate : String) : Node :=
  { kind := .program
    children := [{ kind := .importDecl
                   children := [{ kind := .scopedIdentifier,text := importedDate }] },
      { kind := .classDecl
        children := [{ kind := .identifier,role := some .name,text := "Statement" },
          { kind := .other "class_body",role := some .body
            children := [{ kind := .fieldDecl
                           children := [sqlDate,{ kind := .variableDeclarator,role := some .declarator
                                                  children := [{ kind := .identifier,role := some .name
                                                                 text := "due" }] }] }] }] }] }

def statementUnit (importedDate : String) : SourceUnit :=
  { path := some "Statement.java"
    imports := [{ name := "Date",qualifiedName := importedDate }]
    types := [{ form := .cls,name := "Statement"
                fields := [⟨[],sqlDateRef,[⟨"due","java.sql.Date"⟩]⟩] }] }

theorem scoped_reference_follows_import_statement :
    typeRef sqlDate = .ok sqlDateRef ∧
    unitOf "Statement.java" (statementOf "java.sql.Date") = .ok (statementUnit "java.sql.Date") ∧
    ⟨.composition,"java.sql.Date","Statement"⟩ ∈
      ((statementUnit "java.sql.Date").document {} none).relationships := by
  have ht : typeRef sqlDate = .ok sqlDateRef := rfl
  obtain ⟨_,_,hunits,_⟩ := scoped_reference_follows_import sqlDate_scoped ht (o := {}) rfl
  exact ⟨ht,rfl,hunits (statementUnit "java.sql.Date") none .composition "Statement" (.head _)⟩

theorem scoped_reference_redirected :
    Scoped sqlDate "java.sql" "Date" ∧ typeRef sqlDate = .ok sqlDateRef ∧
    unitOf "Statement.java" (statementOf "java.util.Date") = .ok (statementUnit "java.util.Date") ∧
    ((statementUnit "java.util.Date").document {} none).relationships =
      [⟨.composition,"java.util.Date","Statement"⟩] ∧
    ∃ e ∈ ((statementUnit "java.util.Date").document {} none).types,
      ¬ e.KeepsClass {} .composition sqlDateRef "java.sql" "Date" := by
  refine ⟨sqlDate_scoped,rfl,rfl,rfl,_,.head _,fun hkeeps => ?_⟩
  have hnames := (Entity.keepsClass_iff rfl rfl rfl _ _).mp hkeeps "java.util.Date" rfl
  exact absurd hnames (by decide)

end Java

end ClassDiagram
