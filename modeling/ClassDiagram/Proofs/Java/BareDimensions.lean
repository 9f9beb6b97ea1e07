import ClassDiagram.Proofs.Diagram.Erasure
import ClassDiagram.Proofs.Java.Dimensions
import ClassDiagram.Proofs.Java.Readable

/-!
Types whose dimensions are annotated. A type is read as if its dimensions had no annotations, provided that
no bracket is opened in one of these. Then its text is the printed form of the type it stands for, and types
that differ differ in their texts and in the links that show them. A bracket in an annotation is counted as
one more dimension.
-/

namespace ClassDiagram

namespace Java

namespace Node

def withoutAnnots (n : Node) : Node :=
  let parts := n.children.filter fun c => !c.kind.isAnnot
  { n with text := String.join (parts.map Node.text),children := parts }

mutual

def bare : Node → Node
  | ⟨kind, named, role, text, children⟩ =>
      ⟨kind,named,role,text,bareAll (kind = .arrayType) children⟩

def bareAll (inArray : Bool) : List Node → List Node
  | [] => []
  | c :: cs =>
      (if inArray && c.role = some .dimensions then c.withoutAnnots else c.bare) :: bareAll inArray cs

end

@[simp]
theorem bare_kind (n : Node) : n.bare.kind = n.kind := by
  cases n
  rw [bare]

@[simp]
theorem bare_named (n : Node) : n.bare.named = n.named := by
  cases n
  rw [bare]

@[simp]
theorem bare_role (n : Node) : n.bare.role = n.role := by
  cases n
  rw [bare]

@[simp]
theorem bare_text (n : Node) : n.bare.text = n.text := by
  cases n
  rw [bare]

theorem bareAll_eq_map (inArray : Bool) (cs : List Node) :
    bareAll inArray cs = cs.map fun c =>
      if inArray && c.role = some .dimensions then c.withoutAnnots else c.bare := by
  induction cs with
  | nil => rfl
  | cons c cs ih => rw [bareAll,ih,List.map_cons]

section

variable {n : Node} (h : n.kind ≠ .arrayType)

include h

theorem bare_children : n.bare.children = n.children.map bare := by
  cases n
  rw [bare,bareAll_eq_map,decide_eq_false h]
  rfl

theorem filter_bare {p : Node → Bool} (hp : ∀ c, p c.bare = p c) :
    n.bare.children.filter p = (n.children.filter p).map bare := by
  rw [bare_children h,List.filter_map,show p ∘ bare = p from funext hp]

theorem meaningful_bare : n.bare.meaningful = n.meaningful.map bare :=
  filter_bare h fun c => by rw [isMeaningful,isMeaningful,bare_named,bare_kind]

theorem genericBase_bare :
    n.bare.children.find? isGenericBase = (n.children.find? isGenericBase).map bare := by
  rw [← List.head?_filter,filter_bare h fun c => ?_,List.head?_map,List.head?_filter]
  rw [isGenericBase,isGenericBase,bare_named,bare_kind]

theorem argumentNodes_bare : n.bare.argumentNodes = n.argumentNodes.map bare := by
  have hlist : n.bare.argumentList? = n.argumentList?.map bare := by
    rw [argumentList?,argumentList?,← List.getLast?_map]
    exact congrArg List.getLast? (filter_bare h fun c => by rw [bare_named,bare_kind])
  rw [argumentNodes,argumentNodes,hlist]
  cases hl : n.argumentList? with
  | none => rfl
  | some l => exact meaningful_bare (by rw [(argumentList?_mem hl).2]; decide)

theorem simpleName_bare : simpleName n.bare = simpleName n := by
  have hfilter := filter_bare h (p := fun c => c.named && c.kind = .typeIdentifier) fun c => by
    rw [bare_named,bare_kind]
  simp only [simpleName,bare_kind,bare_text,hfilter,List.getLast?_map]
  split
  · cases (n.children.filter fun c => c.named && c.kind = .typeIdentifier).getLast? with
    | none => rfl
    | some c => simp only [Option.map_some,bare_text]
  · rfl

end

section

variable {n : Node} (h : n.kind = .arrayType)

include h

theorem array_child?_bare (role : Role) :
    n.bare.child? role = (n.child? role).map fun c =>
      if c.role = some .dimensions then c.withoutAnnots else c.bare := by
  have hrole : ∀ c : Node,
      (if c.role = some .dimensions then c.withoutAnnots else c.bare).role = c.role := by
    intro c
    split
    · rfl
    · exact bare_role c
  cases n with
  | mk kind named r text children =>
    have hkind : decide (kind = .arrayType) = true := decide_eq_true h
    simp only [child?,bare,bareAll_eq_map,List.find?_map,Function.comp_def,hkind,Bool.true_and,
      decide_eq_true_eq,hrole]

theorem element_bare : n.bare.child? .element = (n.child? .element).map bare := by
  rw [array_child?_bare h]
  cases hc : n.child? .element with
  | none => rfl
  | some c =>
    have hrole : c.role = some .element := by simpa using List.find?_some hc
    simp [hrole]

theorem dimensions_bare : n.bare.child? .dimensions = (n.child? .dimensions).map withoutAnnots := by
  rw [array_child?_bare h]
  cases hc : n.child? .dimensions with
  | none => rfl
  | some c =>
    have hrole : c.role = some .dimensions := by simpa using List.find?_some hc
    simp [hrole]

end

def opened (n : Node) : Nat := n.text.toList.count '['

-- Every bracket that is opened in the text of the dimensions opens one of them.
def OpensItsPairs (n : Node) : Prop :=
  n.kind = .arrayType → ∀ d ∈ n.child? .dimensions, d.opened = d.withoutAnnots.opened

instance : DecidablePred OpensItsPairs := fun n =>
  inferInstanceAs (Decidable (n.kind = .arrayType →
    ∀ d ∈ n.child? .dimensions, d.opened = d.withoutAnnots.opened))

end Node

theorem brackets_bare {n : Node} (hk : n.kind = .arrayType) (h : n.OpensItsPairs) :
    brackets (n.bare.child? .dimensions) = brackets (n.child? .dimensions) := by
  rw [Node.dimensions_bare hk]
  cases hd : n.child? .dimensions with
  | none => rfl
  | some d =>
    have hopened : d.text.toList.count '[' = d.withoutAnnots.text.toList.count '[' := h hk d hd
    simp only [Option.map_some,brackets,hopened]

theorem wildcardBounds_bare {cs : List Node} (h : ∀ c ∈ cs, typeText c.bare = typeText c)
    (word : Option String) :
    wildcardBounds word ((cs.map Node.bare).map (Node.readWith textFrom)) =
      wildcardBounds word (cs.map (Node.readWith textFrom)) := by
  induction cs generalizing word with
  | nil => rfl
  | cons c cs ih =>
    have hrest := ih fun d hd => h d (List.mem_cons_of_mem _ hd)
    have hc : (c.bare.readWith textFrom).value = (c.readWith textFrom).value := h c (by simp)
    simp only [List.map_cons,wildcardBounds,Node.readWith_node,Node.bare_kind,hc,hrest]

theorem reshapes_bare {n : Node} (h : n.OpensItsPairs) : n.Reshapes Node.bare where
  kind := n.bare_kind
  text _ := n.bare_text
  annotated hk := by rw [Node.meaningful_bare (by simp [hk]),List.getLast?_map]
  base hk := Node.genericBase_bare (by simp [hk])
  arguments hk := Node.argumentNodes_bare (by simp [hk])
  segments hk := Node.meaningful_bare (by simp [hk])
  element hk := Node.element_bare hk
  dimensions hk := brackets_bare hk h
  bounds hk hchild word := by rw [Node.bare_children (by simp [hk]),wildcardBounds_bare hchild]
  name hk := Node.simpleName_bare (by rcases hk with hk | hk <;> simp [hk])

theorem Node.Throughout.reshapes_bare {n : Node} (h : n.Throughout Node.OpensItsPairs) :
    n.Throughout (Node.Reshapes Node.bare) := by
  induction h with
  | intro hn _ ih => exact .intro (Java.reshapes_bare hn) ih

theorem reads_of_bare {n : Node} {t : JavaType} (hn : TypeNode n.bare t)
    (h : n.Throughout Node.OpensItsPairs) : typeText n = .ok t.print ∧ typeRef n = .ok t.reference := by
  have hreads := hn.reads
  refine ⟨?_,?_⟩
  · rw [← typeText_reshaped h.reshapes_bare,hreads.text,t.reference_text]
  · rw [← typeRef_reshaped h.reshapes_bare,hreads.ref]

end Java

def TypeRef.Unimported (imports : List Import) (t : TypeRef) : Prop :=
  ∀ base qualified, t.baseName = some base → lastImport? imports base ≠ some qualified

structure SourceUnit.ShowsApart (u : SourceUnit) (o : DiagramOptions) (package : Option String)
    (documents : List Document) (a b : Origin) : Prop where
  first : a.link o (u.packageShown o package) u.imports ∈ uniqueRelationships documents
  second : b.link o (u.packageShown o package) u.imports ∈ uniqueRelationships documents
  apart : a.link o (u.packageShown o package) u.imports ≠ b.link o (u.packageShown o package) u.imports

theorem SourceUnit.link_mem_unique {u : SourceUnit} {o : DiagramOptions} {package : Option String}
    {documents : List Document} (hd : u.document o package ∈ documents) {a : Origin}
    (ha : a ∈ u.origins o) :
    a.link o (u.packageShown o package) u.imports ∈ uniqueRelationships documents := by
  rw [uniqueRelationships,mem_firstOccurrences]
  refine ⟨List.mem_flatMap.mpr ⟨_,hd,?_⟩,List.not_mem_nil⟩
  rw [u.relationships_eq_map]
  exact List.mem_map_of_mem ha

theorem Origin.links_apart {imports : List Import} {t s : TypeRef} (ht : t.Unimported imports)
    (hs : s.Unimported imports) (hne : t.text ≠ s.text) (o : DiagramOptions) (package : String)
    (c d : Connector) (path other : String) :
    (Origin.reference c path t).link o package imports ≠
      (Origin.reference d other s).link o package imports := by
  intro h
  have hsource := congrArg Relationship.source h
  simp only [link,Header.linkTo,linkSource_unimported o package ht,
    linkSource_unimported o package hs] at hsource
  exact hne (qualify_injective hsource)

namespace Java

theorem printed_types_are_unambiguous {n m : Node} {t s : JavaType} (hn : TypeNode n.bare t)
    (hm : TypeNode m.bare s) (hopens : n.Throughout Node.OpensItsPairs)
    (hothers : m.Throughout Node.OpensItsPairs) :
    (typeText n = .ok t.print ∧ typeRef n = .ok t.reference) ∧
    (typeText m = .ok s.print ∧ typeRef m = .ok s.reference) ∧
    (typeText n = typeText m → t = s) ∧
    (t ≠ s → ∀ (u : SourceUnit) o package documents c d path other,
      u.document o package ∈ documents →
      .reference c path t.reference ∈ u.origins o → .reference d other s.reference ∈ u.origins o →
      t.reference.Unimported u.imports → s.reference.Unimported u.imports →
      u.ShowsApart o package documents (.reference c path t.reference)
        (.reference d other s.reference)) := by
  have hfirst := reads_of_bare hn hopens
  have hsecond := reads_of_bare hm hothers
  refine ⟨hfirst,hsecond,fun h => ?_,?_⟩
  · rw [hfirst.1,hsecond.1] at h
    exact JavaType.print_injective (Except.ok.inj h)
  · intro hne u o package documents c d path other hd ha hb ht hs
    have htext : t.reference.text ≠ s.reference.text := by
      rw [t.reference_text,s.reference_text]
      exact fun h => hne (JavaType.print_injective h)
    exact ⟨u.link_mem_unique hd ha,u.link_mem_unique hd hb,
      Origin.links_apart ht hs htext o _ c d path other⟩

def intsNode (dims : Node) : Node :=
  arrayNode (some .type) "" (intNode.inRole (some .element)) dims

def annotatedDims (annot : Node) (rank : Nat) : Node :=
  { kind := .dimensions,role := some .dimensions,text := annot.text ++ " " ++ pairsOfBrackets rank
    children := annot :: (List.replicate rank [mark "[",mark "]"]).flatten }

def withinAnnot : Node := { kind := .annot,text := "@Within(\"[0,9]\")" }

def fillNode (first second : Node) : Node :=
  { kind := .methodDecl
    children := [{ kind := .voidType,role := some .type,text := "void" },nameLeaf "fill",
      parametersNode [parameterNode first "row" [],parameterNode second "rows" []]] }

def gridTree (first second : Node) : Node :=
  { kind := .program,children := [classNode "Grid" [fillNode first second]] }

def gridLink (source : String) : Relationship := ⟨.dependency,source,"Grid"⟩

theorem intsNode_written {text : String} {rank : Nat} (hrank : 0 < rank) (hdims : LaysOut text rank) :
    TypeNode (intsNode (dimensionsNode text rank)) ((JavaType.primitive .int 0).arrayOf rank) :=
  .plain (.array (some .type) "" rfl (.primitive (some .element) [] .int) hrank hdims)

theorem printed_types_are_unambiguous_grid :
    TypeNode (intsNode (annotatedDims nonNull 2)).bare (.primitive .int 2) ∧
    TypeNode (intsNode (dimensionsOf 1)).bare (.primitive .int 1) ∧
    typeText (intsNode (annotatedDims nonNull 2)) = .ok "int[][]" ∧
    ∃ unit, unitOf "Grid.java" (gridTree (intsNode (annotatedDims nonNull 2)) (intsNode (dimensionsOf 1))) =
        .ok unit ∧
      unit.ShowsApart {} none [unit.document {} none]
        (.reference .dependency "Grid" (JavaType.primitive .int 2).reference)
        (.reference .dependency "Grid" (JavaType.primitive .int 1).reference) ∧
      uniqueRelationships [unit.document {} none] =
        [gridLink "void",gridLink "int[][]",gridLink "int[]"] := by
  have hfirst : TypeNode (intsNode (annotatedDims nonNull 2)).bare (.primitive .int 2) :=
    intsNode_written (by decide) (by decide : LaysOut "[][]" 2)
  have hsecond : TypeNode (intsNode (dimensionsOf 1)).bare (.primitive .int 1) :=
    intsNode_written (by decide) (by decide : LaysOut "[]" 1)
  obtain ⟨⟨htext,_⟩,_,_,hapart⟩ := printed_types_are_unambiguous hfirst hsecond (by decide) (by decide)
  refine ⟨hfirst,hsecond,htext,_,rfl,?_,rfl⟩
  exact hapart (by simp) _ {} none _ _ _ _ _ (List.mem_singleton.mpr rfl)
    (.tail _ (.head _)) (.tail _ (.tail _ (.head _))) nofun nofun

theorem bracket_in_annotation_is_counted :
    TypeNode (intsNode (annotatedDims withinAnnot 1)).bare (.primitive .int 1) ∧
    TypeNode (intsNode (dimensionsOf 2)).bare (.primitive .int 2) ∧
    JavaType.primitive .int 1 ≠ .primitive .int 2 ∧
    typeText (intsNode (annotatedDims withinAnnot 1)) = .ok "int[][]" ∧
    typeText (intsNode (dimensionsOf 2)) = .ok "int[][]" ∧
    ∃ unit, unitOf "Grid.java"
        (gridTree (intsNode (annotatedDims withinAnnot 1)) (intsNode (dimensionsOf 2))) = .ok unit ∧
      uniqueRelationships [unit.document {} none] = [gridLink "void",gridLink "int[][]"] := by
  have hfirst : TypeNode (intsNode (annotatedDims withinAnnot 1)).bare (.primitive .int 1) :=
    intsNode_written (by decide) (by decide : LaysOut "[]" 1)
  have hsecond : TypeNode (intsNode (dimensionsOf 2)).bare (.primitive .int 2) :=
    intsNode_written (by decide) (by decide : LaysOut "[][]" 2)
  exact ⟨hfirst,hsecond,by simp,rfl,rfl,_,rfl,rfl⟩

end Java

end ClassDiagram
