import ClassDiagram.Proofs.Java.TypeNodes
import ClassDiagram.Proofs.Java.Uncommented

/-!
Names, parameters, fields, methods and constructors read from a tree without its comments. A comment
between modifiers is read as one more modifier, so two readings are compared by their outlines; a comment
in any other place outside types is passed over.
-/

namespace ClassDiagram.Java

section

variable {α β γ : Type}

theorem map_allOk_cons (b : β) (rs : List (Result β)) (f : List β → γ) :
    (allOk (.ok b :: rs)).map f = (allOk rs).map fun bs => f (b :: bs) := by
  rw [allOk]
  cases allOk rs <;> rfl

theorem allOk_map_map (f : α → β) (rs : List (Result α)) :
    allOk (rs.map (Except.map f)) = (allOk rs).map (List.map f) := by
  induction rs with
  | nil => rfl
  | cons r rs ih =>
    rw [List.map_cons,allOk,allOk,ih]
    cases r with
    | error e => rfl
    | ok a => cases allOk rs <;> rfl

theorem allOk_isKept {read : Node → Result β} {idle : β} {cs : List Node}
    (hread : ∀ c ∈ cs, c.kind.isComment = true → read c = .ok idle) {combine : List β → γ}
    (hidle : ∀ front back, combine (front ++ idle :: back) = combine (front ++ back)) :
    (allOk ((cs.filter Node.isKept).map read)).map combine = (allOk (cs.map read)).map combine := by
  -- What was read before a comment is carried in `combine`.
  induction cs generalizing combine with
  | nil => rfl
  | cons c cs ih =>
    have hrest := fun d hd => hread d (List.mem_cons_of_mem c hd)
    cases hk : c.kind.isComment with
    | false =>
      rw [List.filter_cons_of_pos (by simp [Node.isKept,hk]),List.map_cons,List.map_cons]
      cases hc : read c with
      | error e => rfl
      | ok b =>
        rw [map_allOk_cons,map_allOk_cons]
        exact ih hrest fun front back => hidle (b :: front) back
    | true =>
      have hcombine : (fun bs => combine (idle :: bs)) = combine := funext fun bs => hidle [] bs
      rw [List.filter_cons_of_neg (by simp [Node.isKept,hk]),List.map_cons,hread c (by simp) hk,
        map_allOk_cons,hcombine]
      exact ih hrest hidle

theorem allOk_uncommented {read : Node → Result β} (idle : β) {cs : List Node}
    (hkept : ∀ c ∈ cs, c.kind.isComment = false → read c.uncommented = read c)
    (hcomment : ∀ c ∈ cs, c.kind.isComment = true → read c = .ok idle) {combine : List β → γ}
    (hidle : ∀ front back, combine (front ++ idle :: back) = combine (front ++ back)) :
    (allOk (((cs.filter Node.isKept).map Node.uncommented).map read)).map combine =
      (allOk (cs.map read)).map combine := by
  rw [map_reshaped fun c hc => ?_,allOk_isKept hcomment hidle]
  obtain ⟨hmem,hk⟩ := List.mem_filter.mp hc
  exact hkept c hmem (by simpa [Node.isKept] using hk)

end

section Names

variable {n : Node}

theorem nameOf_uncommented (ha : n.SetsCommentsApart) : nameOf n.uncommented = nameOf n := by
  rw [nameOf,nameOf,Node.child?_uncommented ha]
  cases n.child? .name with
  | none => rfl
  | some c => exact Node.uncommented_text c

theorem telling_modifiersOf_uncommented (ha : n.Throughout Node.SetsCommentsApart) :
    telling (modifiersOf n.uncommented) = telling (modifiersOf n) := by
  have hfind := n.find?_kind_uncommented (p := (· = .modifiers)) ⟨rfl,rfl⟩
  rw [modifiersOf,modifiersOf,hfind]
  cases hm : n.children.find? (·.kind = .modifiers) with
  | none => rfl
  | some m =>
    have hapart := (ha.inside m (List.mem_of_find?_eq_some hm)).here
    have hkeep : ∀ c ∈ m.children.filter (fun c => !c.kind.isAnnot),
        (isTelling c.text && c.isKept) = isTelling c.text := by
      intro c hc
      cases hk : c.kind.isComment with
      | false => simp [Node.isKept,hk]
      | true => simp [(hapart c (List.mem_filter.mp hc).1 hk).2]
    simp only [Option.map_some]
    rw [Node.filter_uncommented m fun c => by rw [Node.uncommented_kind],
      map_reshaped fun c _ => Node.uncommented_text c,telling,telling,List.filter_map,
      List.filter_map,List.filter_filter]
    exact congrArg (List.map Node.text) (List.filter_congr hkeep)

theorem typeParametersOf_uncommented (ha : n.SetsCommentsApart) :
    typeParametersOf n.uncommented = typeParametersOf n := by
  rw [typeParametersOf,typeParametersOf,Node.child?_uncommented ha]
  cases n.child? .typeParameters with
  | none => rfl
  | some list =>
    have hfilter := list.filter_namedChildren_uncommented (p := (· = .typeParameter)) ⟨rfl,rfl⟩
    simp only [Option.map_some,hfilter,List.filterMap_map]
    refine List.filterMap_congr fun p _ => ?_
    have hname := p.find?_namedChildren_uncommented
      (p := fun k => k = .typeIdentifier || k = .identifier) ⟨rfl,rfl⟩
    simp only [Function.comp_apply,hname,Option.map_map]
    exact congrArg (Option.map · _) (funext Node.uncommented_text)

theorem nameNode?_uncommented (n : Node) :
    nameNode? n.uncommented = (nameNode? n).map Node.uncommented :=
  n.find?_namedChildren_uncommented (p := Kind.isName) ⟨rfl,rfl⟩

theorem importOf?_uncommented (n : Node) : importOf? n.uncommented = importOf? n := by
  rw [importOf?,importOf?,nameNode?_uncommented,Option.map_map]
  have hwildcard := n.any_kind_uncommented (p := (· = .asterisk)) ⟨rfl,rfl⟩
  have hstatic := n.any_kind_uncommented (p := (· = .staticWord)) ⟨rfl,rfl⟩
  simp only [Function.comp_def,Node.uncommented_text,hwildcard,hstatic]

end Names

section Members

variable {n : Node}

section

variable {t : Option Node} (ha : ∀ n ∈ t, n.Throughout Node.SetsCommentsApart)
  (ht : ∀ n ∈ t, n.Throughout Node.TakesNoComment)

include ha ht

theorem typeText?_uncommented : typeText? (t.map Node.uncommented) = typeText? t :=
  option_uncommented_congr fun n hn => typeText_uncommented (ha n hn) (ht n hn)

theorem typeRef?_uncommented : typeRef? (t.map Node.uncommented) = typeRef? t :=
  option_uncommented_congr fun n hn => typeRef_uncommented (ha n hn) (ht n hn)

theorem elementRef?_uncommented : elementRef? (t.map Node.uncommented) = elementRef? t :=
  option_uncommented_congr fun n hn => elementRef_uncommented (ha n hn) (ht n hn)

end

def formalType (n : Node) : Result TypeRef :=
  if brackets (n.child? .dimensions) = "" then typeRef? (n.child? .type)
  else (typeText? (n.child? .type)).map fun text =>
    TypeRef.ofText (text ++ brackets (n.child? .dimensions))

def spreadName (n : Node) : String :=
  ((n.namedChildren.find? (·.kind = .variableDeclarator)).map nameOf).getD ""

theorem parameterOf_eq_formalType (hk : n.kind = .formalParameter) :
    parameterOf n = (formalType n).map fun type => some ⟨modifiersOf n,type,nameOf n⟩ := by
  rw [parameterOf,hk,formalType]
  simp only
  split
  · cases typeRef? (n.child? .type) <;> rfl
  · cases typeText? (n.child? .type) <;> rfl

theorem parameterOf_formal (hk : n.kind = .formalParameter) :
    (parameterOf n).map (Option.map Parameter.outlined) =
      (formalType n).map fun type => some ⟨telling (modifiersOf n),type,nameOf n⟩ := by
  rw [parameterOf_eq_formalType hk]
  cases formalType n <;> rfl

theorem parameterOf_eq_spread (hk : n.kind = .spreadParameter) :
    parameterOf n = (typeRef? (n.namedChildren.find? (·.kind.isType))).map fun type =>
      some ⟨modifiersOf n,type,spreadName n⟩ := by
  rw [parameterOf,hk,spreadName]
  simp only
  cases n.namedChildren.find? (·.kind = .variableDeclarator) <;>
    cases typeRef? (n.namedChildren.find? (·.kind.isType)) <;> rfl

theorem parameterOf_spread (hk : n.kind = .spreadParameter) :
    (parameterOf n).map (Option.map Parameter.outlined) =
      (typeRef? (n.namedChildren.find? (·.kind.isType))).map fun type =>
        some ⟨telling (modifiersOf n),type,spreadName n⟩ := by
  rw [parameterOf_eq_spread hk]
  cases typeRef? (n.namedChildren.find? (·.kind.isType)) <;> rfl

theorem parameterOf_idle (hformal : n.kind ≠ .formalParameter) (hspread : n.kind ≠ .spreadParameter) :
    parameterOf n = .ok none := by
  rw [parameterOf]
  cases hk : n.kind <;> simp_all

theorem formalType_uncommented (ha : n.Throughout Node.SetsCommentsApart)
    (ht : ∀ t ∈ n.child? .type, t.Throughout Node.TakesNoComment) :
    formalType n.uncommented = formalType n := by
  have hchild : ∀ t ∈ n.child? .type, t.Throughout Node.SetsCommentsApart :=
    fun _ hmem => ha.child hmem
  rw [formalType,Node.child?_uncommented ha.here,Node.child?_uncommented ha.here,
    brackets_uncommented,typeRef?_uncommented hchild ht,typeText?_uncommented hchild ht]
  rfl

theorem spreadName_uncommented (ha : n.Throughout Node.SetsCommentsApart) :
    spreadName n.uncommented = spreadName n := by
  have hfind := n.find?_namedChildren_uncommented (p := (· = .variableDeclarator)) ⟨rfl,rfl⟩
  rw [spreadName,spreadName,hfind]
  cases hd : n.namedChildren.find? (·.kind = .variableDeclarator) with
  | none => rfl
  | some d =>
    have hmem := Node.mem_children_of_named (List.mem_of_find?_eq_some hd)
    exact nameOf_uncommented (ha.inside d hmem).here

theorem parameterOf_uncommented (ha : n.Throughout Node.SetsCommentsApart)
    (ht : ∀ t ∈ n.parameterTypes, t.Throughout Node.TakesNoComment) :
    (parameterOf n.uncommented).map (Option.map Parameter.outlined) =
      (parameterOf n).map (Option.map Parameter.outlined) := by
  have hkind := Node.uncommented_kind n
  by_cases h₁ : n.kind = .formalParameter
  · have htypes : ∀ t ∈ n.child? .type, t.Throughout Node.TakesNoComment := fun t hmem =>
      ht t (by simpa [Node.parameterTypes,h₁] using hmem)
    rw [parameterOf_formal (hkind.trans h₁),parameterOf_formal h₁,formalType_uncommented ha htypes,
      telling_modifiersOf_uncommented ha,nameOf_uncommented ha.here]
  by_cases h₂ : n.kind = .spreadParameter
  · have htypes : ∀ t ∈ n.namedChildren.find? (·.kind.isType), t.Throughout Node.TakesNoComment :=
      fun t hmem => ht t (by simpa [Node.parameterTypes,h₂] using hmem)
    have hapart : ∀ t ∈ n.namedChildren.find? (·.kind.isType),
        t.Throughout Node.SetsCommentsApart := fun t hmem =>
      ha.inside t (Node.mem_children_of_named (List.mem_of_find?_eq_some hmem))
    have hfind := n.find?_namedChildren_uncommented (p := Kind.isType) ⟨rfl,rfl⟩
    rw [parameterOf_spread (hkind.trans h₂),parameterOf_spread h₂,hfind,
      typeRef?_uncommented hapart htypes,telling_modifiersOf_uncommented ha,spreadName_uncommented ha]
  · rw [parameterOf_idle h₁ h₂,parameterOf_idle (by rwa [hkind]) (by rwa [hkind])]

theorem parameterOf_comment {c : Node} (hc : c.kind.isComment = true) : parameterOf c = .ok none := by
  rcases Kind.isComment_iff.mp hc with hk | hk <;> rw [parameterOf,hk]

def outlinedParameters (ps : List Parameter) : List Parameter := ps.map Parameter.outlined

theorem parametersOf_outlined (list : Option Node) :
    (parametersOf list).map outlinedParameters = match list with
      | none => .ok []
      | some n => (allOk (n.namedChildren.map fun c =>
          (parameterOf c).map (Option.map Parameter.outlined))).map (List.filterMap id) := by
  cases list with
  | none => rfl
  | some n =>
    have hmap : n.namedChildren.map (fun c => (parameterOf c).map (Option.map Parameter.outlined)) =
        (n.namedChildren.map parameterOf).map (Except.map (Option.map Parameter.outlined)) := by
      rw [List.map_map]
      rfl
    simp only [hmap,allOk_map_map,parametersOf]
    cases allOk (n.namedChildren.map parameterOf) with
    | error e => rfl
    | ok found =>
      refine congrArg Except.ok ?_
      simp only [outlinedParameters,List.map_filterMap,List.filterMap_map]
      rfl

theorem parametersOf_uncommented {list : Option Node}
    (ha : ∀ n ∈ list, n.Throughout Node.SetsCommentsApart)
    (ht : ∀ t ∈ list.toList.flatMap Node.listedParameterTypes, t.Throughout Node.TakesNoComment) :
    (parametersOf (list.map Node.uncommented)).map outlinedParameters =
      (parametersOf list).map outlinedParameters := by
  rw [parametersOf_outlined,parametersOf_outlined]
  cases list with
  | none => rfl
  | some n =>
    simp only [Option.map_some,Node.namedChildren_uncommented]
    refine allOk_uncommented none (fun c hc _ => ?_) (fun c _ hk => ?_) fun front back => ?_
    · have hapart := (ha n rfl).inside c (Node.mem_children_of_named hc)
      refine parameterOf_uncommented hapart fun t hmem => ?_
      exact ht t (by simpa [Node.listedParameterTypes] using ⟨c,hc,hmem⟩)
    · rw [parameterOf_comment hk]
      rfl
    · simp

theorem fieldOf_uncommented (ha : n.Throughout Node.SetsCommentsApart)
    (ht : ∀ t ∈ n.child? .type, t.Throughout Node.TakesNoComment) :
    (fieldOf n.uncommented).map FieldDecl.outlined = (fieldOf n).map FieldDecl.outlined := by
  have hchild : ∀ t ∈ n.child? .type, t.Throughout Node.SetsCommentsApart :=
    fun _ hmem => ha.child hmem
  have hvariables : ∀ text, ((n.childrenIn .declarator).map Node.uncommented).map (fun d =>
        ({ name := nameOf d,type := text ++ brackets (d.child? .dimensions) } : Declarator)) =
      (n.childrenIn .declarator).map fun d =>
        { name := nameOf d,type := text ++ brackets (d.child? .dimensions) } := by
    intro text
    refine map_reshaped fun d hd => ?_
    have hapart := (ha.inside d (List.mem_filter.mp hd).1).here
    rw [nameOf_uncommented hapart,Node.child?_uncommented hapart,brackets_uncommented]
  rw [fieldOf,fieldOf,Node.child?_uncommented ha.here,Node.childrenIn_uncommented ha.here,
    typeText?_uncommented hchild ht,elementRef?_uncommented hchild ht]
  cases typeText? (n.child? .type) with
  | error e => rfl
  | ok text =>
    cases elementRef? (n.child? .type) with
    | error e => rfl
    | ok type =>
      refine congrArg Except.ok ?_
      simp only [FieldDecl.outlined,hvariables,telling_modifiersOf_uncommented ha]

theorem methodOf_uncommented (ha : n.Throughout Node.SetsCommentsApart)
    (ht : ∀ t ∈ n.child? .type, t.Throughout Node.TakesNoComment)
    (hps : ∀ t ∈ (n.child? .parameters).toList.flatMap Node.listedParameterTypes,
      t.Throughout Node.TakesNoComment) :
    (methodOf n.uncommented).map MethodDecl.outlined = (methodOf n).map MethodDecl.outlined := by
  have houtlined : ∀ m : Node, (methodOf m).map MethodDecl.outlined = (do
      let returnType ← typeRef? (m.child? .type)
      let parameters ← (parametersOf (m.child? .parameters)).map outlinedParameters
      pure ⟨telling (modifiersOf m),returnType,nameOf m,parameters⟩) := by
    intro m
    rw [methodOf]
    cases typeRef? (m.child? .type) with
    | error e => rfl
    | ok returnType => cases parametersOf (m.child? .parameters) <;> rfl
  rw [houtlined,houtlined,Node.child?_uncommented ha.here,Node.child?_uncommented ha.here,
    typeRef?_uncommented (fun _ hmem => ha.child hmem) ht,
    parametersOf_uncommented (fun _ hmem => ha.child hmem) hps,telling_modifiersOf_uncommented ha,
    nameOf_uncommented ha.here]

theorem constructorOf_uncommented (ha : n.Throughout Node.SetsCommentsApart)
    (hps : ∀ t ∈ (n.child? .parameters).toList.flatMap Node.listedParameterTypes,
      t.Throughout Node.TakesNoComment) :
    (constructorOf n.uncommented).map ConstructorDecl.outlined =
      (constructorOf n).map ConstructorDecl.outlined := by
  have houtlined : ∀ m : Node, (constructorOf m).map ConstructorDecl.outlined =
      ((parametersOf (m.child? .parameters)).map outlinedParameters).map fun parameters =>
        ⟨telling (modifiersOf m),nameOf m,parameters⟩ := by
    intro m
    rw [constructorOf]
    cases parametersOf (m.child? .parameters) <;> rfl
  rw [houtlined,houtlined,Node.child?_uncommented ha.here,
    parametersOf_uncommented (fun _ hmem => ha.child hmem) hps,telling_modifiersOf_uncommented ha,
    nameOf_uncommented ha.here]

end Members

end ClassDiagram.Java
