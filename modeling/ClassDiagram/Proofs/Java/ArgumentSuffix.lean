import ClassDiagram.Proofs.Diagram.Lookups
import ClassDiagram.Proofs.Java.ElementType
import ClassDiagram.Proofs.Java.Partition
import ClassDiagram.Proofs.Java.ScopedReference

/-!
Type arguments as they are written and as they are put together again. The text of a reference is printed from the
nodes of its type, its suffix from the references that were kept as its arguments. The two agree whatever the tree is
like: wherever a source file mentions a type with arguments, at whatever depth, the text is a base followed by the
suffix. So a link to such a type ends in the suffix, also when an import replaces what stands before it.
-/

namespace ClassDiagram

namespace TypeRef

mutual

def mentioned : TypeRef → List TypeRef
  | ⟨text, baseName, arguments⟩ => ⟨text,baseName,arguments⟩ :: mentionedIn arguments

def mentionedIn : Option (List TypeRef) → List TypeRef
  | none => []
  | some args => mentionedAll args

def mentionedAll : List TypeRef → List TypeRef
  | [] => []
  | a :: args => a.mentioned ++ mentionedAll args

end

theorem mentionedAll_eq_flatMap (args : List TypeRef) : mentionedAll args = args.flatMap mentioned := by
  induction args with
  | nil => rfl
  | cons a args ih => rw [mentionedAll,ih,List.flatMap_cons]

def EndsInSuffix (t : TypeRef) : Prop :=
  ∀ args, t.arguments = some args → args ≠ [] ∧ ∃ base, t.text = base ++ angled (args.map text)

section

variable {t : TypeRef} {args rest : List TypeRef}

theorem mentioned_of_none (h : t.arguments = none) : t.mentioned = [t] := by
  cases t
  cases h
  rfl

theorem mentioned_of_some (h : t.arguments = some args) : t.mentioned = t :: args.flatMap mentioned := by
  cases t
  cases h
  rw [mentioned,mentionedIn,mentionedAll_eq_flatMap]

theorem suffix_of_some (h : t.arguments = some args) (hne : args ≠ []) :
    t.suffix = angled (args.map text) := by
  obtain ⟨a,rest,rfl⟩ := List.exists_cons_of_ne_nil hne
  rw [suffix,h]

-- A reference without arguments has nothing to agree on.
theorem endsInSuffix_of_none (h : t.arguments = none) : ∀ s ∈ t.mentioned, s.EndsInSuffix := by
  rw [mentioned_of_none h]
  intro s hs args hargs
  rw [List.mem_singleton.mp hs,h] at hargs
  cases hargs

theorem endsInSuffix_of_some (h : t.arguments = some args) (ht : t.EndsInSuffix)
    (hargs : ∀ a ∈ args, ∀ s ∈ a.mentioned, s.EndsInSuffix) : ∀ s ∈ t.mentioned, s.EndsInSuffix := by
  rw [mentioned_of_some h]
  refine List.forall_mem_cons.mpr ⟨ht,fun s hs => ?_⟩
  obtain ⟨a,ha,hs⟩ := List.mem_flatMap.mp hs
  exact hargs a ha s hs

theorem argumentList_eq_some : argumentList args = some rest ↔ args = rest ∧ rest ≠ [] := by
  cases args <;> cases rest <;> simp [argumentList]

end

-- The reference to the same type without its arguments, written as given.
def raw (t : TypeRef) (base : String) : TypeRef := { t with text := base,arguments := none }

@[simp]
theorem raw_text (t : TypeRef) (base : String) : (t.raw base).text = base := rfl

@[simp]
theorem raw_baseName (t : TypeRef) (base : String) : (t.raw base).baseName = t.baseName := rfl

@[simp]
theorem raw_suffix (t : TypeRef) (base : String) : (t.raw base).suffix = "" := rfl

end TypeRef

section Mentioned

def ConstructorDecl.references (d : ConstructorDecl) : List TypeRef := d.parameters.map Parameter.type

def Header.kept (h : Header) : List TypeRef :=
  h.references ++ h.constructors.flatMap ConstructorDecl.references ++ h.components.map Parameter.type

def SourceUnit.kept (u : SourceUnit) : List TypeRef := u.walk.flatMap fun d => d.kept

def SourceUnit.mentioned (u : SourceUnit) : List TypeRef := u.kept.flatMap TypeRef.mentioned

end Mentioned

section Links

variable {t : TypeRef} {base : String}

theorem Entity.source_imported {name qualified : String} {e : Entity} (hname : t.baseName = some name)
    (h : e.imports.get? name = some qualified) (o : DiagramOptions) (c : Connector) :
    (e.link o c t).source = (if o.showPackage then qualified else name) ++ t.suffix := by
  simp only [link,sourceOf,hname,h]

theorem Entity.source_unimported {e : Entity} (h : ∀ name ∈ t.baseName, e.imports.get? name = none)
    (o : DiagramOptions) (c : Connector) : (e.link o c t).source = qualify e.package t.text := by
  rw [link,sourceOf]
  cases hname : t.baseName with
  | none => rfl
  | some name => simp only [h name hname]

theorem linkSource_raw (h : t.text = base ++ t.suffix) (o : DiagramOptions) (package : String)
    (imports : List Import) :
    linkSource o package imports t = linkSource o package imports (t.raw base) ++ t.suffix := by
  have hliteral : qualify package t.text = qualify package base ++ t.suffix := by
    rw [← qualify_append,← h]
  cases hname : t.baseName with
  | none => simp only [linkSource,TypeRef.raw_baseName,TypeRef.raw_text,hname,hliteral]
  | some name =>
    cases himport : lastImport? imports name <;>
      simp only [linkSource,TypeRef.raw_baseName,TypeRef.raw_text,TypeRef.raw_suffix,hname,himport,
        hliteral,String.append_empty]

theorem SourceUnit.link_mem_relationships {u : SourceUnit} {o : DiagramOptions} {c : Connector}
    {place : String} (h : .reference c place t ∈ u.origins o) (imports : List Import)
    (package : Option String) :
    ⟨c,linkSource o (u.packageShown o package) imports t,qualify (u.packageShown o package) place⟩ ∈
      ((u.withImports imports).document o package).relationships := by
  rw [(u.withImports imports).relationships_eq_map]
  exact List.mem_map.mpr ⟨_,h,rfl⟩

end Links

namespace Java

section Types

variable {n : Node} {t : TypeRef}

theorem forall₂_exists_of_mem_right {α β : Type} {R : α → β → Prop} {xs : List α} {ys : List β} {y : β}
    (h : List.Forall₂ R xs ys) (hy : y ∈ ys) : ∃ x ∈ xs, R x y := by
  induction h with
  | nil => cases hy
  | cons hxy _ ih =>
    rcases List.mem_cons.mp hy with rfl | hy
    · exact ⟨_,.head _,hxy⟩
    · obtain ⟨x,hx,hr⟩ := ih hy
      exact ⟨x,.tail _ hx,hr⟩

theorem allOk_texts {ns : List Node} {args : List TypeRef}
    (h : List.Forall₂ (fun n t => typeRef n = .ok t) ns args) :
    allOk (ns.map typeText) = .ok (args.map TypeRef.text) := by
  rw [allOk_map_eq_ok,List.forall₂_map_right_iff]
  exact h.imp fun _ _ => typeText_of_typeRef

theorem typeRef_generic_eq_ok (hk : n.kind = .genericType) (h : typeRef n = .ok t) :
    ∃ args, List.Forall₂ (fun c a => typeRef c = .ok a) n.argumentNodes args ∧
      t.arguments = TypeRef.argumentList args := by
  rw [typeRef_generic hk] at h
  cases hb : n.children.find? isGenericBase <;>
    simp only [hb,bind_eq_ok,pure_eq_ok] at h <;>
    obtain ⟨_,_,_,_,args,hargs,rfl⟩ := h <;>
    exact ⟨args,allOk_map_eq_ok.mp hargs,rfl⟩

theorem typeText_generic_eq_ok {args : List TypeRef} {text : String} (hk : n.kind = .genericType)
    (hargs : List.Forall₂ (fun c a => typeRef c = .ok a) n.argumentNodes args)
    (h : typeText n = .ok text) : ∃ base, text = base ++ TypeRef.angled (args.map TypeRef.text) := by
  rw [typeText_generic hk,allOk_texts hargs] at h
  cases hb : n.children.find? isGenericBase with
  | none =>
    rw [hb] at h
    cases h
    exact ⟨"",rfl⟩
  | some c =>
    simp only [hb,bind_eq_ok,pure_eq_ok] at h
    obtain ⟨base,_,_,hsame,rfl⟩ := h
    cases hsame
    exact ⟨base,rfl⟩

theorem arguments_eq_none (ha : n.kind ≠ .annotatedType) (hg : n.kind ≠ .genericType)
    (h : typeRef n = .ok t) : t.arguments = none := by
  by_cases hn : n.kind = .typeIdentifier ∨ n.kind = .scopedTypeIdentifier
  · rw [typeRef_named hn] at h
    simp only [bind_eq_ok,pure_eq_ok] at h
    obtain ⟨_,_,_,_,rfl⟩ := h
    rfl
  · rw [typeRef_unnamed ha (fun hk => hn (.inl hk)) (fun hk => hn (.inr hk)) hg] at h
    obtain ⟨_,_,rfl⟩ := map_eq_ok.mp h
    rfl

theorem typeRef_endsInSuffix (h : typeRef n = .ok t) : ∀ s ∈ t.mentioned, s.EndsInSuffix := by
  induction n using Node.size_induction generalizing t with
  | step n ih =>
    by_cases ha : n.kind = .annotatedType
    · rw [typeRef_annotated ha,meaningOf] at h
      split at h
      · cases h
      · rename_i c hl
        exact ih c (Node.sizeOf_lt_of_mem_children
          (Node.mem_children_of_meaningful (List.mem_of_getLast? hl))) h
    by_cases hg : n.kind = .genericType
    · obtain ⟨args,hread,hargs⟩ := typeRef_generic_eq_ok hg h
      obtain ⟨base,htext⟩ := typeText_generic_eq_ok hg hread (typeText_of_typeRef h)
      -- An empty list of arguments is not kept, though its brackets are in the text.
      by_cases hempty : args = []
      · exact TypeRef.endsInSuffix_of_none (hargs.trans (by rw [hempty]; rfl))
      · replace hargs : t.arguments = some args :=
          hargs.trans (TypeRef.argumentList_eq_some.mpr ⟨rfl,hempty⟩)
        refine TypeRef.endsInSuffix_of_some hargs ?_ ?_
        · intro others hothers
          cases hargs.symm.trans hothers
          exact ⟨hempty,base,htext⟩
        · intro a ha
          obtain ⟨c,hc,hca⟩ := forall₂_exists_of_mem_right hread ha
          exact ih c (Node.sizeOf_lt_of_mem_argumentNodes hc) hca
    · exact TypeRef.endsInSuffix_of_none (arguments_eq_none ha hg h)

end Types

-- A reference that is kept was read from a node of a type, unless it is the text of an array or of nothing.
inductive FromTree : TypeRef → Prop
  | node {n : Node} {t : TypeRef} : typeRef n = .ok t → FromTree t
  | text (text : String) : FromTree (.ofText text)

theorem FromTree.endsInSuffix {t : TypeRef} (h : FromTree t) : ∀ s ∈ t.mentioned, s.EndsInSuffix := by
  cases h with
  | node h => exact typeRef_endsInSuffix h
  | text text => exact TypeRef.endsInSuffix_of_none rfl

section Members

variable {n : Node} {m : Option Node} {t : TypeRef}

theorem typeRef?_fromTree (h : typeRef? m = .ok t) : FromTree t := by
  cases m with
  | none =>
    cases h
    exact .text ""
  | some n => exact .node h

theorem elementRef?_fromTree (h : elementRef? m = .ok t) : FromTree t := by
  cases m with
  | none =>
    cases h
    exact .text ""
  | some n =>
    obtain ⟨_,_,he⟩ := bind_eq_ok.mp h
    exact typeRef?_fromTree he

theorem typesListed_fromTree {ns : List Node} {lists : List (List TypeRef)}
    (h : allOk (ns.map typesListed) = .ok lists) : ∀ t ∈ lists.flatten, FromTree t := by
  intro t ht
  obtain ⟨ts,hts,ht⟩ := List.mem_flatten.mp ht
  obtain ⟨n,_,hn⟩ := forall₂_exists_of_mem_right (allOk_map_eq_ok.mp h) hts
  rw [typesListed_eq,allOk_map_eq_ok] at hn
  obtain ⟨c,_,hc⟩ := forall₂_exists_of_mem_right hn ht
  exact .node hc

theorem parameterOf_fromTree {p : Parameter} (h : parameterOf n = .ok (some p)) : FromTree p.type := by
  by_cases hformal : n.kind = .formalParameter
  · rw [parameterOf_eq_formalType hformal,map_eq_ok] at h
    obtain ⟨type,htype,hp⟩ := h
    cases hp
    rw [formalType] at htype
    split at htype
    · exact typeRef?_fromTree htype
    · obtain ⟨_,_,rfl⟩ := map_eq_ok.mp htype
      exact .text _
  by_cases hspread : n.kind = .spreadParameter
  · rw [parameterOf_eq_spread hspread,map_eq_ok] at h
    obtain ⟨type,htype,hp⟩ := h
    cases hp
    exact typeRef?_fromTree htype
  · rw [parameterOf_idle hformal hspread] at h
    cases h

theorem parametersOf_fromTree {ps : List Parameter} (h : parametersOf m = .ok ps) :
    ∀ t ∈ ps.map Parameter.type, FromTree t := by
  intro t ht
  obtain ⟨p,hp,rfl⟩ := List.mem_map.mp ht
  cases m with
  | none =>
    cases h
    cases hp
  | some list =>
    simp only [parametersOf,bind_eq_ok,pure_eq_ok] at h
    obtain ⟨found,hfound,rfl⟩ := h
    have hmem : some p ∈ found := by simpa using hp
    obtain ⟨c,_,hc⟩ := forall₂_exists_of_mem_right (allOk_map_eq_ok.mp hfound) hmem
    exact parameterOf_fromTree hc

theorem fieldOf_fromTree {f : FieldDecl} (h : fieldOf n = .ok f) : FromTree f.type := by
  simp only [fieldOf,bind_eq_ok,pure_eq_ok] at h
  obtain ⟨_,_,type,htype,rfl⟩ := h
  exact elementRef?_fromTree htype

theorem methodOf_fromTree {d : MethodDecl} (h : methodOf n = .ok d) : ∀ t ∈ d.references, FromTree t := by
  simp only [methodOf,bind_eq_ok,pure_eq_ok] at h
  obtain ⟨type,htype,ps,hps,rfl⟩ := h
  exact List.forall_mem_cons.mpr ⟨typeRef?_fromTree htype,parametersOf_fromTree hps⟩

theorem constructorOf_fromTree {d : ConstructorDecl} (h : constructorOf n = .ok d) :
    ∀ t ∈ d.references, FromTree t := by
  simp only [constructorOf,bind_eq_ok,pure_eq_ok] at h
  obtain ⟨ps,hps,rfl⟩ := h
  exact parametersOf_fromTree hps

theorem componentsOf_fromTree {form : Form} {ps : List Parameter} (h : componentsOf form n = .ok ps) :
    ∀ t ∈ ps.map Parameter.type, FromTree t := by
  rw [componentsOf] at h
  split at h
  · simp only [bind_eq_ok,pure_eq_ok] at h
    obtain ⟨lists,hlists,rfl⟩ := h
    cases hl : lists.getLast? with
    | none => simp
    | some ps =>
      obtain ⟨c,_,hc⟩ :=
        forall₂_exists_of_mem_right (allOk_map_eq_ok.mp hlists) (List.mem_of_getLast? hl)
      exact parametersOf_fromTree hc
  · cases h
    simp

end Members

section Declarations

variable {n : Node} {form : Form} {d : Declaration}

theorem ownBody_gathered {body : Body} (h : ownBody n = .ok body) : ∃ elements, Gathered elements body := by
  rw [ownBody_eq] at h
  cases hb : n.child? .body with
  | none =>
    rw [hb] at h
    cases h
    exact ⟨[],gathered_nil.mpr rfl⟩
  | some b =>
    rw [hb] at h
    exact ⟨b.elements,bodyOf_eq_ok_iff.mp h⟩

theorem declarationOf_fromTree (h : declarationOf form n = .ok d) : ∀ t ∈ d.kept, FromTree t := by
  obtain ⟨elements,hbody⟩ := ownBody_gathered (ownBody_of_declarationOf h)
  rw [declarationOf_eq] at h
  simp only [bind_eq_ok,pure_eq_ok] at h
  obtain ⟨extended,hextended,implemented,himplemented,components,hcomponents,body,_,rfl⟩ := h
  simp only [Header.kept,Header.references,List.forall_mem_append]
  refine ⟨⟨⟨⟨⟨typesListed_fromTree himplemented,typesListed_fromTree hextended⟩,?_⟩,?_⟩,?_⟩,
    componentsOf_fromTree hcomponents⟩
  · intro t ht
    obtain ⟨f,hf,rfl⟩ := List.mem_map.mp ht
    obtain ⟨c,_,hc⟩ := forall₂_exists_of_mem_right hbody.fields hf
    exact fieldOf_fromTree hc
  · intro t ht
    obtain ⟨m,hm,ht⟩ := List.mem_flatMap.mp ht
    obtain ⟨c,_,hc⟩ := forall₂_exists_of_mem_right hbody.methods hm
    exact methodOf_fromTree hc t ht
  · intro t ht
    obtain ⟨k,hk,ht⟩ := List.mem_flatMap.mp ht
    obtain ⟨c,_,hc⟩ := forall₂_exists_of_mem_right hbody.constructors hk
    exact constructorOf_fromTree hc t ht

theorem kept_fromTree {path : String} {root : Node} {unit : SourceUnit}
    (h : unitOf path root = .ok unit) : ∀ t ∈ unit.kept, FromTree t := by
  intro t ht
  obtain ⟨d,hd,ht⟩ := List.mem_flatMap.mp ht
  obtain ⟨_,_,_,_,hdeclares⟩ := forall₂_exists_of_mem_right (declarationNodes_walk h) hd
  exact declarationOf_fromTree hdeclares t ht

end Declarations

theorem mentioned_endsInSuffix {path : String} {root : Node} {unit : SourceUnit}
    (h : unitOf path root = .ok unit) : ∀ t ∈ unit.mentioned, t.EndsInSuffix := by
  intro t ht
  obtain ⟨r,hr,ht⟩ := List.mem_flatMap.mp ht
  exact (kept_fromTree h r hr).endsInSuffix t ht

theorem rebuilt_suffix_is_as_written {path : String} {root : Node} {unit : SourceUnit}
    (h : unitOf path root = .ok unit) :
    ∀ t ∈ unit.mentioned, ∀ args, t.arguments = some args →
      args ≠ [] ∧ t.suffix = "<" ++ ", ".intercalate (args.map TypeRef.text) ++ ">" ∧
      ∃ base, t.text = base ++ t.suffix ∧
        (∀ (e : Entity) name qualified, t.baseName = some name → e.imports.get? name = some qualified →
          ∀ o c, (e.link o c t).source = (if o.showPackage then qualified else name) ++ t.suffix) ∧
        (∀ e : Entity, (∀ name ∈ t.baseName, e.imports.get? name = none) →
          ∀ o c, (e.link o c t).source = qualify e.package base ++ t.suffix) ∧
        ∀ o c place, .reference c place t ∈ unit.origins o → ∀ imports package,
          ⟨c,linkSource o (unit.packageShown o package) imports (t.raw base) ++ t.suffix,
              qualify (unit.packageShown o package) place⟩ ∈
            ((unit.withImports imports).document o package).relationships := by
  intro t ht args hargs
  obtain ⟨hne,base,htext⟩ := mentioned_endsInSuffix h t ht args hargs
  have hsuffix := TypeRef.suffix_of_some hargs hne
  rw [← hsuffix] at htext
  refine ⟨hne,hsuffix,base,htext,fun e name qualified => Entity.source_imported,fun e he o c => ?_,
    fun o c place hplace imports package => ?_⟩
  · rw [Entity.source_unimported he,← qualify_append,← htext]
  · rw [← linkSource_raw htext]
    exact SourceUnit.link_mem_relationships hplace imports package

section Catalogue

def typeLeaf (name : String) : Node := { kind := .typeIdentifier,text := name }

def booksNode : Node :=
  genericNode none "List<@Checked Book>" (typeLeaf "List")
    (argumentsNode none "<@Checked Book>" [checkedNode (typeLeaf "Book")])

-- No grammar gives a type two lists of arguments; the last one counts.
def shelvesNode : Node :=
  { kind := .genericType,role := some .type
    children := [typeLeaf "Map",argumentsNode none "<>" [],
      argumentsNode none "" [raisedNode (typeLeaf "Key") 1,checkedNode booksNode]] }

def catalogueNode : Node :=
  { kind := .program
    children := [classNode "Catalogue"
      [{ kind := .fieldDecl,children := [shelvesNode,variableNode "shelves" []] }]] }

def booksRef : TypeRef :=
  { text := "List<Book>",baseName := some "List"
    arguments := some [{ text := "Book",baseName := some "Book" }] }

def shelvesRef : TypeRef :=
  { text := "Map<Key[], List<Book>>",baseName := some "Map",arguments := some [{ text := "Key[]" },booksRef] }

def catalogueUnit : SourceUnit :=
  { path := some "Catalogue.java"
    types := [{ form := .cls,name := "Catalogue"
                fields := [⟨[],shelvesRef,[⟨"shelves","Map<Key[], List<Book>>"⟩]⟩] }] }

def catalogueEntity (imports : ImportTable) : Entity :=
  { package := "library",kind := .cls,name := "Catalogue",imports }

end Catalogue

theorem rebuilt_suffix_is_as_written_catalogue :
    unitOf "Catalogue.java" catalogueNode = .ok catalogueUnit ∧
    catalogueUnit.mentioned = [shelvesRef,{ text := "Key[]" },booksRef,
      { text := "Book",baseName := some "Book" }] ∧
    booksRef.suffix = "<Book>" ∧
    ((catalogueEntity [("List","java.util.List")]).link {} .dependency booksRef).source =
      "java.util.List" ++ booksRef.suffix ∧
    (∃ base, booksRef.text = base ++ booksRef.suffix ∧
      ((catalogueEntity []).link {} .dependency booksRef).source =
        qualify "library" base ++ booksRef.suffix) ∧
    ⟨.composition,"java.util.Map" ++ shelvesRef.suffix,"Catalogue"⟩ ∈
      ((catalogueUnit.withImports [{ name := "Map",qualifiedName := "java.util.Map" }]).document {}
        none).relationships ∧
    ∃ base, shelvesRef.text = base ++ shelvesRef.suffix ∧
      ⟨.composition,base ++ shelvesRef.suffix,"Catalogue"⟩ ∈
        (catalogueUnit.document {} none).relationships := by
  have h : unitOf "Catalogue.java" catalogueNode = .ok catalogueUnit := rfl
  have hmentioned : catalogueUnit.mentioned = [shelvesRef,{ text := "Key[]" },booksRef,
      { text := "Book",baseName := some "Book" }] := by
    have hwalk : catalogueUnit.walk = catalogueUnit.types := by
      simp only [SourceUnit.walk,catalogueUnit,Declaration.walkFrom,List.append_nil]
    rw [SourceUnit.mentioned,SourceUnit.kept,hwalk]
    rfl
  have hwritten := rebuilt_suffix_is_as_written h
  rw [hmentioned] at hwritten
  obtain ⟨_,hbooks,base,hbase,himported,hunimported,_⟩ := hwritten booksRef (by simp) _ rfl
  obtain ⟨_,_,front,hfront,_,_,hlinks⟩ := hwritten shelvesRef (by simp) _ rfl
  have hlink := hlinks {} .composition "Catalogue" (.head _)
  exact ⟨h,hmentioned,hbooks,himported (catalogueEntity _) "List" "java.util.List" rfl rfl {} .dependency,
    ⟨base,hbase,hunimported (catalogueEntity []) (fun _ _ => rfl) {} .dependency⟩,
    hlink [{ name := "Map",qualifiedName := "java.util.Map" }] none,front,hfront,hlink [] none⟩

end Java

end ClassDiagram
