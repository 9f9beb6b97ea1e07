import ClassDiagram.Proofs.Java.Comments
import ClassDiagram.Proofs.Java.WrittenType

/-!
Dimensions written after a name instead of on the type. For the variables of a field and for parameters the
place does not matter, at whatever depth of a file they stand: the file is read as the same declarations. The
dimensions after the parameter list of a method are not read at all.
-/

namespace ClassDiagram.Java

-- One dimension for each bracket that is opened.
def rankOf : Option Node → Nat
  | none => 0
  | some dims => dims.text.toList.count '['

theorem brackets_eq (dims : Option Node) : brackets dims = pairsOfBrackets (rankOf dims) := by
  cases dims <;> rfl

theorem pairsOfBrackets_eq_empty {rank : Nat} : pairsOfBrackets rank = "" ↔ rank = 0 := by
  constructor
  · intro h
    rw [← count_pairsOfBrackets rank,h]
    rfl
  · rintro rfl
    rfl

namespace Node

def inRole (role : Option Role) (n : Node) : Node := { n with role }

end Node

section Roles

variable (role : Option Role) (n : Node)

theorem typeText_inRole : typeText (n.inRole role) = typeText n := by
  rw [typeText,typeText,Node.readWith_value,Node.readWith_value]
  rfl

theorem typeRef_inRole : typeRef (n.inRole role) = typeRef n := by
  rw [typeRef,typeRef,Node.readWith_value,Node.readWith_value,refFrom,refFrom,typeText_inRole]
  rfl

theorem elementRef?_inRole : elementRef? (some (n.inRole role)) = elementRef? (some n) := by
  have hkind : (n.inRole role).kind = n.kind := rfl
  by_cases ha : n.kind = .annotatedType
  · rw [elementRef?,elementRef?,elementNode_annotated (hkind.trans ha),elementNode_annotated ha]
    rfl
  by_cases hb : n.kind = .arrayType
  · rw [elementRef?,elementRef?,elementNode_array (hkind.trans hb),elementNode_array hb]
    rfl
  · rw [elementRef?,elementRef?,elementNode_plain (by rwa [hkind]) (by rwa [hkind]),
      elementNode_plain ha hb]
    exact typeRef_inRole role n

end Roles

-- The second node has the type of the first with more dimensions written on it.
inductive Raised (rank : Nat) : Node → Node → Prop
  | around {t a : Node} : a.kind = .arrayType → a.child? .element = some (t.inRole (some .element)) →
      rankOf (a.child? .dimensions) = rank → Raised rank t a
  | onto {t a : Node} : t.kind = .arrayType → a.kind = .arrayType →
      a.child? .element = t.child? .element →
      rankOf (a.child? .dimensions) = rankOf (t.child? .dimensions) + rank → Raised rank t a
  | annotated {t a inner raised : Node} : t.kind = .annotatedType → a.kind = .annotatedType →
      t.meaningful.getLast? = some inner → a.meaningful.getLast? = some raised →
      Raised rank inner raised → Raised rank t a

namespace Raised

variable {rank : Nat} {t a : Node}

theorem typeText_eq (h : Raised rank t a) :
    typeText a = (typeText t).map (· ++ pairsOfBrackets rank) := by
  induction h with
  | around ha helement hdims =>
    rw [typeText_array ha,helement,brackets_eq,hdims,typeText?,typeText_inRole]
    rfl
  | @onto t a ht ha helement hdims =>
    rw [typeText_array ha,typeText_array ht,helement,brackets_eq,brackets_eq,hdims,
      pairsOfBrackets_add]
    cases typeText? (t.child? .element) with
    | error e => rfl
    | ok text => exact congrArg Except.ok (String.append_assoc ..).symm
  | annotated ht ha hinner hraised _ ih =>
    rw [typeText_annotated ha,typeText_annotated ht,meaningOf,meaningOf,hinner,hraised]
    exact ih

theorem typeRef_eq (h : Raised rank t a) :
    typeRef a = (typeText t).map fun text => TypeRef.ofText (text ++ pairsOfBrackets rank) := by
  have harray : ∀ {a : Node}, a.kind = .arrayType → typeRef a = (typeText a).map TypeRef.ofText :=
    fun ha => typeRef_unnamed (by simp [ha]) (by simp [ha]) (by simp [ha]) (by simp [ha])
  have hmap : (typeText t).map (fun text => TypeRef.ofText (text ++ pairsOfBrackets rank)) =
      (typeText a).map TypeRef.ofText := by
    rw [h.typeText_eq]
    cases typeText t <;> rfl
  rw [hmap]
  clear hmap
  induction h with
  | around ha _ _ => exact harray ha
  | onto _ ha _ _ => exact harray ha
  | annotated _ ha _ hraised _ ih =>
    rw [typeRef_annotated ha,typeText_annotated ha,meaningOf,meaningOf,hraised]
    exact ih

theorem elementRef?_eq (h : Raised rank t a) : elementRef? (some a) = elementRef? (some t) := by
  induction h with
  | @around t a ha helement _ =>
    rw [← elementRef?_inRole (some .element) t,elementRef?,elementNode_array ha,helement]
    rfl
  | onto ht ha helement _ =>
    rw [elementRef?,elementRef?,elementNode_array ha,elementNode_array ht,helement]
  | annotated ht ha hinner hraised _ ih =>
    rw [elementRef?,elementRef?,elementNode_annotated ha,elementNode_annotated ht,meaningOf,meaningOf,
      hinner,hraised]
    exact ih

end Raised

structure Alike (n m : Node) : Prop where
  kind : m.kind = n.kind
  named : m.named = n.named
  name : nameOf m = nameOf n
  modifiers : modifiersOf m = modifiersOf n

-- Dimensions of the names in the first node are written on the type in the second.
structure FieldRespelled (n m : Node) : Prop extends Alike n m where
  isField : n.kind = .fieldDecl ∨ n.kind = .constantDecl
  moved : ∃ rank t a, n.child? .type = some t ∧ m.child? .type = some a ∧ Raised rank t a ∧
    List.Forall₂ (fun d e => nameOf e = nameOf d ∧
      rankOf (d.child? .dimensions) = rank + rankOf (e.child? .dimensions))
      (n.childrenIn .declarator) (m.childrenIn .declarator)

structure ParameterRespelled (n m : Node) : Prop extends Alike n m where
  isFormal : n.kind = .formalParameter
  moved : ∃ rank t a, 0 < rank ∧ n.child? .type = some t ∧ m.child? .type = some a ∧ Raised rank t a ∧
    rankOf (n.child? .dimensions) = rank + rankOf (m.child? .dimensions)

structure MethodRespelled (rank : Nat) (n m : Node) : Prop extends Alike n m where
  isMethod : n.kind = .methodDecl
  parameters : m.child? .parameters = n.child? .parameters
  moved : ∃ t a, n.child? .type = some t ∧ m.child? .type = some a ∧ Raised rank t a ∧
    rankOf (n.child? .dimensions) = rank + rankOf (m.child? .dimensions)

def variablesOf (text : String) (n : Node) : List Declarator :=
  (n.childrenIn .declarator).map fun d => ⟨nameOf d,text ++ brackets (d.child? .dimensions)⟩

theorem fieldOf_eq (n : Node) :
    fieldOf n = (do
      let text ← typeText? (n.child? .type)
      let type ← elementRef? (n.child? .type)
      pure ⟨modifiersOf n,type,variablesOf text n⟩) := rfl

theorem FieldRespelled.fieldOf_eq {n m : Node} (h : FieldRespelled n m) : fieldOf m = fieldOf n := by
  obtain ⟨rank,t,a,ht,ha,hraised,hvariables⟩ := h.moved
  have htexts : ∀ text, variablesOf (text ++ pairsOfBrackets rank) m = variablesOf text n := by
    intro text
    rw [variablesOf,variablesOf]
    generalize n.childrenIn .declarator = ds at hvariables
    generalize m.childrenIn .declarator = es at hvariables
    induction hvariables with
    | nil => rfl
    | cons hd _ ih =>
      rw [List.map_cons,List.map_cons,ih,hd.1,brackets_eq,brackets_eq,hd.2,pairsOfBrackets_add,
        String.append_assoc]
  rw [Java.fieldOf_eq,Java.fieldOf_eq,ht,ha,hraised.elementRef?_eq,typeText?,typeText?,
    hraised.typeText_eq,h.modifiers]
  cases typeText t with
  | error e => rfl
  | ok text =>
    cases elementRef? (some t) with
    | error e => rfl
    | ok type => exact congrArg (fun vs => Except.ok (FieldDecl.mk (modifiersOf n) type vs)) (htexts text)

theorem ParameterRespelled.parameterOf_eq {n m : Node} (h : ParameterRespelled n m) :
    parameterOf m = parameterOf n := by
  obtain ⟨rank,t,a,hrank,ht,ha,hraised,hdims⟩ := h.moved
  have hfirst : formalType n = (typeText t).map fun text =>
      TypeRef.ofText (text ++ pairsOfBrackets rank ++ brackets (m.child? .dimensions)) := by
    have hwritten : brackets (n.child? .dimensions) =
        pairsOfBrackets rank ++ brackets (m.child? .dimensions) := by
      rw [brackets_eq,brackets_eq,hdims,pairsOfBrackets_add]
    have hne : brackets (n.child? .dimensions) ≠ "" := by
      rw [brackets_eq,Ne,pairsOfBrackets_eq_empty]
      omega
    rw [formalType,if_neg hne,ht,hwritten]
    simp only [String.append_assoc]
    rfl
  have hsecond : formalType m = formalType n := by
    rw [hfirst,formalType,ha]
    split
    · rename_i hempty
      rw [hempty]
      simp only [String.append_empty]
      exact hraised.typeRef_eq
    · rw [typeText?,hraised.typeText_eq]
      cases typeText t <;> rfl
  rw [parameterOf_eq_formalType (h.kind.trans h.isFormal),parameterOf_eq_formalType h.isFormal,hsecond,
    h.modifiers,h.name]

-- A type that is read as a reference has the text of the reference.
theorem typeText_of_typeRef {n : Node} {r : TypeRef} (h : typeRef n = .ok r) :
    typeText n = .ok r.text := by
  induction n using Node.size_induction with
  | step n ih =>
    by_cases ha : n.kind = .annotatedType
    · rw [typeRef_annotated ha,meaningOf] at h
      rw [typeText_annotated ha,meaningOf]
      cases hl : n.meaningful.getLast? with
      | none =>
        rw [hl] at h
        cases h
      | some c =>
        rw [hl] at h
        exact ih c (Node.sizeOf_lt_of_mem_children
          (Node.mem_children_of_meaningful (List.mem_of_getLast? hl))) h
    by_cases hn : n.kind = .typeIdentifier ∨ n.kind = .scopedTypeIdentifier
    · rw [typeRef_named hn] at h
      simp only [bind_eq_ok,pure_eq_ok] at h
      obtain ⟨text,htext,_,_,rfl⟩ := h
      exact htext
    by_cases hg : n.kind = .genericType
    · rw [typeRef_generic hg] at h
      cases hb : n.children.find? isGenericBase <;> simp only [hb,bind_eq_ok,pure_eq_ok] at h
      · obtain ⟨text,htext,_,_,_,_,rfl⟩ := h
        exact htext
      · obtain ⟨text,htext,_,_,_,_,rfl⟩ := h
        exact htext
    · rw [typeRef_unnamed ha (fun hk => hn (.inl hk)) (fun hk => hn (.inr hk)) hg] at h
      obtain ⟨text,htext,rfl⟩ := map_eq_ok.mp h
      exact htext

theorem MethodRespelled.methodOf_eq {rank : Nat} {n m : Node} (h : MethodRespelled rank n m)
    {d : MethodDecl} (hd : methodOf n = .ok d) :
    methodOf m = .ok { d with returnType := .ofText (d.returnType.text ++ pairsOfBrackets rank) } := by
  obtain ⟨t,a,ht,ha,hraised,_⟩ := h.moved
  rw [methodOf,ht] at hd
  simp only [bind_eq_ok,pure_eq_ok] at hd
  obtain ⟨type,htype,parameters,hparameters,rfl⟩ := hd
  rw [methodOf,ha,h.parameters,hparameters,h.modifiers,h.name,typeRef?,hraised.typeRef_eq,
    typeText_of_typeRef htype]
  rfl

inductive ParametersRespelled : Option Node → Option Node → Prop
  | none : ParametersRespelled none none
  | some {list other : Node} : List.Forall₂ (fun p q => q = p ∨ ParameterRespelled p q)
      list.namedChildren other.namedChildren → ParametersRespelled (some list) (some other)

theorem ParametersRespelled.parametersOf_eq {list other : Option Node}
    (h : ParametersRespelled list other) : parametersOf other = parametersOf list := by
  cases h with
  | none => rfl
  | @some list other hall =>
    have hread : other.namedChildren.map parameterOf = list.namedChildren.map parameterOf := by
      refine map_eq_of_forall₂ (hall.imp fun p q hpq => ?_)
      rcases hpq with rfl | hpq
      · rfl
      · exact hpq.parameterOf_eq
    rw [parametersOf,parametersOf,hread]

structure SameHeader (n m : Node) : Prop extends Alike n m where
  supertypes : m.children.filter Node.listsSupertypes = n.children.filter Node.listsSupertypes
  typeParameters : m.child? .typeParameters = n.child? .typeParameters

-- Trees that differ only in where fields and parameters have their dimensions. The texts of the nodes
-- around these are not compared.
mutual

inductive Respelled : Node → Node → Prop
  | same (n : Node) : Respelled n n
  | field {n m : Node} : FieldRespelled n m → Respelled n m
  | routine {n m : Node} : n.kind = .methodDecl ∨ n.kind = .constructorDecl → Alike n m →
      m.child? .type = n.child? .type →
      ParametersRespelled (n.child? .parameters) (m.child? .parameters) → Respelled n m
  | enumBody {n m : Node} : n.kind = .enumBodyDecls → Alike n m →
      AllRespelled n.namedChildren m.namedChildren → Respelled n m
  | declaration {n m : Node} : n.declaresType = true → SameHeader n m →
      List.Forall₂ (fun l k => ParametersRespelled (some l) (some k)) n.componentLists m.componentLists →
      BodyRespelled (n.child? .body) (m.child? .body) → Respelled n m

inductive BodyRespelled : Option Node → Option Node → Prop
  | none : BodyRespelled none none
  | some {n m : Node} : AllRespelled n.namedChildren m.namedChildren → BodyRespelled (some n) (some m)

inductive AllRespelled : List Node → List Node → Prop
  | nil : AllRespelled [] []
  | cons {n m : Node} {ns ms : List Node} : Respelled n m → AllRespelled ns ms →
      AllRespelled (n :: ns) (m :: ms)

end

structure ReadAlike (n m : Node) : Prop where
  kind : m.kind = n.kind
  part : partOf m = partOf n
  declaration : ∀ form, formOf? n.kind = some form → declarationOf form m = declarationOf form n
  names : n.kind = .packageDecl ∨ n.kind = .importDecl → m = n

section Reading

variable {n m : Node}

theorem ReadAlike.of_member (hkind : m.kind = n.kind) (hmember : n.kind.isMember = true)
    (hpart : partOf m = partOf n) : ReadAlike n m := by
  refine ⟨hkind,hpart,fun form hf => ?_,fun hn => ?_⟩
  · cases hk : n.kind <;> simp_all [Kind.isMember,formOf?]
  · rcases hn with hk | hk <;> simp_all [Kind.isMember]

theorem readAlike_field (h : FieldRespelled n m) : ReadAlike n m := by
  refine .of_member h.kind (by rcases h.isField with hk | hk <;> rw [hk] <;> rfl) ?_
  rw [partOf_field h.isField,partOf_field (by rw [h.kind]; exact h.isField),h.fieldOf_eq]

theorem readAlike_routine (hk : n.kind = .methodDecl ∨ n.kind = .constructorDecl) (h : Alike n m)
    (htype : m.child? .type = n.child? .type)
    (hps : ParametersRespelled (n.child? .parameters) (m.child? .parameters)) : ReadAlike n m := by
  refine .of_member h.kind (by rcases hk with hk | hk <;> rw [hk] <;> rfl) ?_
  rcases hk with hk | hk
  · rw [partOf_method hk,partOf_method (h.kind.trans hk),methodOf,methodOf,htype,hps.parametersOf_eq,
      h.modifiers,h.name]
  · rw [partOf_constructor hk,partOf_constructor (h.kind.trans hk),constructorOf,constructorOf,
      hps.parametersOf_eq,h.modifiers,h.name]

theorem SameHeader.filter_eq (h : SameHeader n m) {p : Kind → Bool}
    (hp : ∀ c : Node, p c.kind = true → c.listsSupertypes = true) :
    m.children.filter (fun c => p c.kind) = n.children.filter fun c => p c.kind := by
  have hfilter : ∀ l : Node, l.children.filter (fun c => p c.kind) =
      (l.children.filter Node.listsSupertypes).filter fun c => p c.kind := by
    intro l
    rw [List.filter_filter]
    refine List.filter_congr fun c _ => ?_
    cases hc : p c.kind with
    | false => rfl
    | true => rw [hp c hc,Bool.and_self]
  rw [hfilter m,hfilter n,h.supertypes]

theorem declarationOf_respelled {form : Form} (h : SameHeader n m)
    (hps : List.Forall₂ (fun l k => ParametersRespelled (some l) (some k))
      n.componentLists m.componentLists)
    (hbody : bodyOf? (m.child? .body) = bodyOf? (n.child? .body)) :
    declarationOf form m = declarationOf form n := by
  have hextended := h.filter_eq (p := fun k => k = .superclass || k = .extendsInterfaces) fun c hc => by
    simp_all [Node.listsSupertypes]
  have himplemented := h.filter_eq (p := (· = .superInterfaces)) fun c hc => by
    simp_all [Node.listsSupertypes]
  have hcomponents : componentsOf form m = componentsOf form n := by
    have hlists : m.componentLists.map (fun c => parametersOf (some c)) =
        n.componentLists.map fun c => parametersOf (some c) :=
      map_eq_of_forall₂ (hps.imp fun l k hlk => hlk.parametersOf_eq)
    rw [Node.componentLists,Node.componentLists] at hlists
    rw [componentsOf,componentsOf,hlists]
  rw [declarationOf_eq,declarationOf_eq,hextended,himplemented,hcomponents,ownBody_eq,ownBody_eq,hbody,
    h.name,h.modifiers,
    typeParametersOf,typeParametersOf,h.typeParameters]

theorem readAlike_declaration {form : Form} (hf : formOf? n.kind = some form) (h : SameHeader n m)
    (hps : List.Forall₂ (fun l k => ParametersRespelled (some l) (some k))
      n.componentLists m.componentLists)
    (hbody : bodyOf? (m.child? .body) = bodyOf? (n.child? .body)) :
    ReadAlike n m := by
  refine ⟨h.kind,?_,fun form _ => declarationOf_respelled h hps hbody,fun hn => ?_⟩
  · rw [partOf_declaration hf,partOf_declaration (h.kind ▸ hf),declarationOf_respelled h hps hbody]
  · rcases hn with hk | hk <;> simp [hk,formOf?] at hf

theorem bodyOf_respelled (h : List.Forall₂ ReadAlike n.namedChildren m.namedChildren) :
    bodyOf m = bodyOf n := by
  rw [bodyOf_eq,bodyOf_eq,map_eq_of_forall₂ (h.imp fun _ _ hread => hread.part)]

end Reading

mutual

theorem Respelled.readAlike {n m : Node} (h : Respelled n m) : ReadAlike n m := by
  match h with
  | .same n => exact ⟨rfl,rfl,fun _ _ => rfl,fun _ => rfl⟩
  | .field hfield => exact readAlike_field hfield
  | .routine hk halike htype hps => exact readAlike_routine hk halike htype hps
  | .enumBody hk halike hall =>
    refine .of_member halike.kind (by rw [hk]; rfl) ?_
    rw [partOf_enumBody hk,partOf_enumBody (halike.kind.trans hk),bodyOf_respelled hall.readAlike]
  | .declaration hd hsame hps hbody =>
    obtain ⟨form,hf⟩ := Option.isSome_iff_exists.mp hd
    exact readAlike_declaration hf hsame hps hbody.readAlike

theorem BodyRespelled.readAlike {body other : Option Node} (h : BodyRespelled body other) :
    bodyOf? other = bodyOf? body := by
  match h with
  | .none => rfl
  | .some hall => exact bodyOf_respelled hall.readAlike

theorem AllRespelled.readAlike {ns ms : List Node} (h : AllRespelled ns ms) :
    List.Forall₂ ReadAlike ns ms := by
  match h with
  | .nil => exact .nil
  | .cons hn hns => exact .cons hn.readAlike hns.readAlike

end

theorem AllRespelled.unitOf_eq {root other : Node}
    (h : AllRespelled root.namedChildren other.namedChildren) (path : String) :
    unitOf path other = unitOf path root := by
  have hread := h.readAlike
  have htypes : other.namedChildren.filterMap (fun n =>
        (formOf? n.kind).map fun form => declarationOf form n) =
      root.namedChildren.filterMap fun n =>
        (formOf? n.kind).map fun form => declarationOf form n := by
    refine filterMap_eq_of_forall₂ (hread.imp fun n m hnm => ?_)
    rw [hnm.kind]
    cases hf : formOf? n.kind with
    | none => rfl
    | some form => exact congrArg some (hnm.declaration form hf)
  have hnames : ∀ {α : Type} (kind : Kind), kind = .packageDecl ∨ kind = .importDecl →
      ∀ read : Node → Option α, (other.namedChildren.filter (·.kind = kind)).filterMap read =
        (root.namedChildren.filter (·.kind = kind)).filterMap read := by
    intro α kind hkind read
    rw [List.filterMap_filter,List.filterMap_filter]
    refine filterMap_eq_of_forall₂ (hread.imp fun n m hnm => ?_)
    by_cases hk : n.kind = kind
    · rw [hnm.names (hk ▸ hkind)]
    · rw [if_neg (by simpa [hnm.kind] using hk),if_neg (by simpa using hk)]
  rw [Java.unitOf_eq,Java.unitOf_eq,htypes]
  simp only [packageOf,importsOf,hnames .packageDecl (.inl rfl),hnames .importDecl (.inr rfl)]

theorem dimensions_after_names_count (n m : Node) :
    (FieldRespelled n m → fieldOf m = fieldOf n) ∧
    (ParameterRespelled n m → parameterOf m = parameterOf n) ∧
    (AllRespelled n.namedChildren m.namedChildren → ∀ path,
      unitOf path m = unitOf path n ∧
      ∀ o package, (unitOf path m).map (fun unit => unit.document o package) =
        (unitOf path n).map fun unit => unit.document o package) ∧
    ∀ rank d, 0 < rank → MethodRespelled rank n m → methodOf n = .ok d →
      ∃ e, methodOf m = .ok e ∧
        e.drawn = { d.drawn with returnType := d.drawn.returnType ++ pairsOfBrackets rank } ∧
        e.drawn.returnType ≠ d.drawn.returnType := by
  refine ⟨fun h => h.fieldOf_eq,fun h => h.parameterOf_eq,?_,?_⟩
  · intro h path
    have hunit := h.unitOf_eq path
    exact ⟨hunit,fun o package => by rw [hunit]⟩
  · intro rank d hrank h hd
    refine ⟨_,h.methodOf_eq hd,rfl,fun heq => ?_⟩
    have hempty : pairsOfBrackets rank = "" := String.append_eq_left_iff.mp heq
    rw [pairsOfBrackets_eq_empty] at hempty
    omega

section Tables

def dimensionsOf (rank : Nat) : Node := dimensionsNode (pairsOfBrackets rank) rank

def variableNode (name : String) (dims : List Node) : Node :=
  { kind := .variableDeclarator,role := some .declarator,children := nameLeaf name :: dims }

def parameterNode (type : Node) (name : String) (dims : List Node) : Node :=
  { kind := .formalParameter,children := type.inRole (some .type) :: nameLeaf name :: dims }

def parametersNode (ns : List Node) : Node :=
  { kind := .formalParameters,role := some .parameters,children := mark "(" :: ns ++ [mark ")"] }

def bodyNode (ns : List Node) : Node :=
  { kind := .other "class_body",role := some .body,children := mark "\x7b" :: ns ++ [mark "\x7d"] }

def classNode (name : String) (members : List Node) : Node :=
  { kind := .classDecl,children := [mark "class",nameLeaf name,bodyNode members] }

def intNode : Node := { kind := .integralType,text := "int" }

def rowNode : Node :=
  genericNode none "List<T>" (identifierNode none listIdentifier)
    (argumentsNode none "<T>" [identifierNode none ⟨"T",by decide⟩])

def raisedNode (element : Node) (rank : Nat) : Node :=
  arrayNode none "" (element.inRole (some .element)) (dimensionsOf rank)

theorem raisedNode_raised (t : Node) (rank : Nat) (role other : Option Role) :
    Raised rank (t.inRole role) ((raisedNode t rank).inRole other) := by
  refine .around rfl rfl ?_
  have hdims : ((raisedNode t rank).inRole other).child? .dimensions = some (dimensionsOf rank) := rfl
  rw [hdims]
  exact count_pairsOfBrackets rank

def sizesNode (type : Node) (a b : List Node) : Node :=
  { kind := .fieldDecl,children := [type.inRole (some .type),variableNode "a" a,variableNode "b" b] }

def constructorNode (parameter : Node) : Node :=
  { kind := .constructorDecl,children := [nameLeaf "Table",parametersNode [parameter]] }

def recordNode (component : Node) : Node :=
  { kind := .recordDecl,children := [nameLeaf "Cell",parametersNode [component],bodyNode []] }

def tableNode (sizes rows cells : Node) : Node :=
  { kind := .program,children := [classNode "Table" [sizes,constructorNode rows,recordNode cells]] }

-- `int a[], b[][]`, `List<T> rows[]` and `int[] at[]`, then the same with the dimensions on the types.
def trailingTable : Node :=
  tableNode (sizesNode intNode [dimensionsOf 1] [dimensionsOf 2])
    (parameterNode rowNode "rows" [dimensionsOf 1])
    (parameterNode (raisedNode intNode 1) "at" [dimensionsOf 1])

def leadingTable : Node :=
  tableNode (sizesNode (raisedNode intNode 1) [] [dimensionsOf 1])
    (parameterNode (raisedNode rowNode 1) "rows" []) (parameterNode (raisedNode intNode 2) "at" [])

theorem leadingTable_respelled : AllRespelled trailingTable.namedChildren leadingTable.namedChildren := by
  have hsizes : FieldRespelled (sizesNode intNode [dimensionsOf 1] [dimensionsOf 2])
      (sizesNode (raisedNode intNode 1) [] [dimensionsOf 1]) :=
    { kind := rfl,named := rfl,name := rfl,modifiers := rfl,isField := .inl rfl
      moved := ⟨1,_,_,rfl,rfl,raisedNode_raised intNode 1 (some .type) (some .type),
        .cons ⟨rfl,rfl⟩ (.cons ⟨rfl,rfl⟩ .nil)⟩ }
  have hrows : ParameterRespelled (parameterNode rowNode "rows" [dimensionsOf 1])
      (parameterNode (raisedNode rowNode 1) "rows" []) :=
    { kind := rfl,named := rfl,name := rfl,modifiers := rfl,isFormal := rfl
      moved := ⟨1,_,_,by decide,rfl,rfl,raisedNode_raised rowNode 1 (some .type) (some .type),rfl⟩ }
  have hcells : ParameterRespelled (parameterNode (raisedNode intNode 1) "at" [dimensionsOf 1])
      (parameterNode (raisedNode intNode 2) "at" []) :=
    { kind := rfl,named := rfl,name := rfl,modifiers := rfl,isFormal := rfl
      moved := ⟨1,_,_,by decide,rfl,rfl,.onto rfl rfl rfl rfl,rfl⟩ }
  have htable : Respelled (constructorNode (parameterNode rowNode "rows" [dimensionsOf 1]))
      (constructorNode (parameterNode (raisedNode rowNode 1) "rows" [])) :=
    .routine (.inr rfl) ⟨rfl,rfl,rfl,rfl⟩ rfl (.some (.cons (.inr hrows) .nil))
  have hcell : Respelled (recordNode (parameterNode (raisedNode intNode 1) "at" [dimensionsOf 1]))
      (recordNode (parameterNode (raisedNode intNode 2) "at" [])) :=
    .declaration rfl ⟨⟨rfl,rfl,rfl,rfl⟩,rfl,rfl⟩ (.cons (.some (.cons (.inr hcells) .nil)) .nil) (.some .nil)
  exact .cons (.declaration rfl ⟨⟨rfl,rfl,rfl,rfl⟩,rfl,rfl⟩ .nil
    (.some (.cons (.field hsizes) (.cons htable (.cons hcell .nil))))) .nil

theorem dimensions_after_names_count_table :
    AllRespelled trailingTable.namedChildren leadingTable.namedChildren ∧
    ∃ unit, unitOf "Table.java" trailingTable = .ok unit ∧ unitOf "Table.java" leadingTable = .ok unit ∧
      (unit.document {} none).types.map (fun e =>
          (e.name,e.fields.map (·.type),e.methods.map (·.parameters))) =
        [("Table",["int[]"],[["List<T>[]"]]),("Table.Cell",["int[][]"],[])] := by
  obtain ⟨_,_,hunits,_⟩ := dimensions_after_names_count trailingTable leadingTable
  have hsame := (hunits leadingTable_respelled "Table.java").1
  exact ⟨leadingTable_respelled,_,rfl,hsame,by decide⟩

def cellsNode (type : Node) (dims : List Node) : Node :=
  { kind := .methodDecl
    children := type.inRole (some .type) :: nameLeaf "cells" :: parametersNode [] :: dims }

def cellsTree (type : Node) (dims : List Node) : Node :=
  { kind := .program,children := [classNode "Table" [cellsNode type dims]] }

theorem dimensions_after_parameters_are_lost :
    MethodRespelled 1 (cellsNode intNode [dimensionsOf 1]) (cellsNode (raisedNode intNode 1) []) ∧
    ∃ unit other, unitOf "Table.java" (cellsTree intNode [dimensionsOf 1]) = .ok unit ∧
      unitOf "Table.java" (cellsTree (raisedNode intNode 1) []) = .ok other ∧
      (unit.document {} none).types.map (·.methods.map (·.returnType)) = [["int"]] ∧
      (other.document {} none).types.map (·.methods.map (·.returnType)) = [["int[]"]] ∧
      (unit.document {} none).relationships ≠ (other.document {} none).relationships := by
  have hmethod : MethodRespelled 1 (cellsNode intNode [dimensionsOf 1])
      (cellsNode (raisedNode intNode 1) []) :=
    { kind := rfl,named := rfl,name := rfl,modifiers := rfl,isMethod := rfl,parameters := rfl
      moved := ⟨_,_,rfl,rfl,raisedNode_raised intNode 1 (some .type) (some .type),rfl⟩ }
  exact ⟨hmethod,_,_,rfl,rfl,rfl,rfl,by decide⟩

end Tables

end ClassDiagram.Java
