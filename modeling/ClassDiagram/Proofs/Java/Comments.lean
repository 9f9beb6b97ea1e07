import ClassDiagram.Proofs.Java.UncommentedMembers

/-!
Comments and diagrams. A source file and the same file without its comments have the same document,
unless a comment was taken for a part of a type. Then they need not: a comment among type arguments is
drawn as an argument.
-/

namespace ClassDiagram.Java

section Bodies

def Body.outlined (b : Body) : Body :=
  { fields := b.fields.map FieldDecl.outlined
    constructors := b.constructors.map ConstructorDecl.outlined
    methods := b.methods.map MethodDecl.outlined
    constants := b.constants
    members := b.members.map Declaration.outlined }

theorem foldl_append_outlined (parts : List Body) (b : Body) :
    (parts.foldl Body.append b).outlined =
      (parts.map Body.outlined).foldl Body.append b.outlined := by
  induction parts generalizing b with
  | nil => rfl
  | cons part parts ih =>
    rw [List.foldl_cons,ih,List.map_cons,List.foldl_cons]
    simp only [Body.append,Body.outlined,List.map_append]

def outlinedPart (c : Node) : Result Body := (partOf c).map Body.outlined

def outlinedBody (n : Node) : Result Body := (bodyOf n).map Body.outlined

theorem outlinedBody_eq (n : Node) :
    outlinedBody n =
      (allOk (n.namedChildren.map outlinedPart)).map fun parts => parts.foldl Body.append {} := by
  have hmap : n.namedChildren.map outlinedPart =
      (n.namedChildren.map partOf).map (Except.map Body.outlined) := by
    rw [List.map_map]
    rfl
  rw [outlinedBody,bodyOf_eq,hmap,allOk_map_map]
  cases allOk (n.namedChildren.map partOf) with
  | error e => rfl
  | ok parts => exact congrArg Except.ok (foldl_append_outlined parts {})

theorem declarationOf_outlined (form : Form) (n : Node) :
    (declarationOf form n).map Declaration.outlined = (do
      let extended ← allOk ((n.children.filter fun c =>
        c.kind = .superclass || c.kind = .extendsInterfaces).map typesListed)
      let implemented ← allOk ((n.children.filter (·.kind = .superInterfaces)).map typesListed)
      let components ← (componentsOf form n).map outlinedParameters
      let body ← (ownBody n).map Body.outlined
      pure
        { form,name := nameOf n,modifiers := telling (modifiersOf n)
          typeParameters := typeParametersOf n,implemented := implemented.flatten
          extended := extended.flatten,components,fields := body.fields
          constructors := body.constructors,methods := body.methods,constants := body.constants
          members := body.members }) := by
  rw [declarationOf_eq]
  cases allOk ((n.children.filter fun c =>
    c.kind = .superclass || c.kind = .extendsInterfaces).map typesListed) with
  | error e => rfl
  | ok extended =>
    cases allOk ((n.children.filter (·.kind = .superInterfaces)).map typesListed) with
    | error e => rfl
    | ok implemented =>
      cases componentsOf form n with
      | error e => rfl
      | ok components =>
        cases ownBody n with
        | error e => rfl
        | ok body => exact congrArg Except.ok (Declaration.outlined_eq _)

variable {n : Node}

theorem allOk_typesListed_uncommented {p : Kind → Bool} (hp : Kind.Skips p)
    (ha : n.Throughout Node.SetsCommentsApart)
    (ht : ∀ c ∈ n.children, p c.kind = true →
      ∀ t ∈ c.listedTypes, t.Throughout Node.TakesNoComment) :
    allOk ((n.uncommented.children.filter fun c => p c.kind).map typesListed) =
      allOk ((n.children.filter fun c => p c.kind).map typesListed) := by
  rw [n.filter_kind_uncommented hp,map_reshaped fun c hc => ?_]
  obtain ⟨hmem,hk⟩ := List.mem_filter.mp hc
  exact typesListed_uncommented (ha.inside c hmem) (ht c hmem hk)

theorem componentsOf_outlined (n : Node) :
    (componentsOf .record n).map outlinedParameters =
      (allOk (n.componentLists.map fun c => (parametersOf (some c)).map outlinedParameters)).map
        fun lists => lists.getLast?.getD [] := by
  have hmap : (n.componentLists.map fun c => (parametersOf (some c)).map outlinedParameters) =
      (n.componentLists.map fun c => parametersOf (some c)).map (Except.map outlinedParameters) := by
    rw [List.map_map]
    rfl
  rw [componentsOf,if_pos rfl,hmap,allOk_map_map]
  change Except.map _ (allOk (n.componentLists.map _) >>= _) = _
  cases allOk (n.componentLists.map fun c => parametersOf (some c)) with
  | error e => rfl
  | ok lists =>
    have hlast : outlinedParameters (lists.getLast?.getD []) =
        (lists.map outlinedParameters).getLast?.getD [] := by
      rw [List.getLast?_map]
      cases lists.getLast? <;> rfl
    exact congrArg Except.ok hlast

theorem componentsOf_uncommented {form : Form} (hf : formOf? n.kind = some form)
    (ha : n.Throughout Node.SetsCommentsApart)
    (ht : ∀ t ∈ n.headerTypes, t.Throughout Node.TakesNoComment) :
    (componentsOf form n.uncommented).map outlinedParameters =
      (componentsOf form n).map outlinedParameters := by
  by_cases hrecord : form = .record
  · have hkind : n.kind = .recordDecl := by
      rw [hrecord] at hf
      cases hk : n.kind <;> simp [formOf?,hk] at hf ⊢
    have hlists : n.uncommented.componentLists = n.componentLists.map Node.uncommented :=
      n.filter_kind_uncommented (p := (· = .formalParameters)) ⟨rfl,rfl⟩
    rw [hrecord,componentsOf_outlined,componentsOf_outlined,hlists,map_reshaped fun list hlist => ?_]
    change (parametersOf ((some list).map Node.uncommented)).map outlinedParameters = _
    refine parametersOf_uncommented (fun c hc => ?_) fun t hmem => ?_
    · rw [← Option.mem_some.mp hc]
      exact ha.inside list (List.mem_filter.mp hlist).1
    · refine ht t (List.mem_append_right _ ?_)
      rw [if_pos hkind]
      exact List.mem_flatMap.mpr ⟨list,hlist,by simpa using hmem⟩
  · rw [componentsOf,componentsOf,if_neg hrecord,if_neg hrecord]

theorem declarationOf_uncommented {form : Form} (hf : formOf? n.kind = some form)
    (ha : n.Throughout Node.SetsCommentsApart)
    (ht : ∀ t ∈ n.headerTypes, t.Throughout Node.TakesNoComment)
    (hbody : ∀ b, n.child? .body = some b → outlinedBody b.uncommented = outlinedBody b) :
    (declarationOf form n.uncommented).map Declaration.outlined =
      (declarationOf form n).map Declaration.outlined := by
  have hlisted : ∀ c ∈ n.children, c.listsSupertypes = true → ∀ t ∈ c.listedTypes,
      t.Throughout Node.TakesNoComment := fun c hc hl t hmem =>
    ht t (List.mem_append_left _ (List.mem_flatMap.mpr ⟨c,List.mem_filter.mpr ⟨hc,hl⟩,hmem⟩))
  have hextended := allOk_typesListed_uncommented
    (p := fun k => k = .superclass || k = .extendsInterfaces) ⟨rfl,rfl⟩ ha fun c hc hk =>
      hlisted c hc (Bool.or_eq_true_iff.mpr (.inl hk))
  have himplemented := allOk_typesListed_uncommented (p := (· = .superInterfaces)) ⟨rfl,rfl⟩ ha
    fun c hc hk => hlisted c hc (Bool.or_eq_true_iff.mpr (.inr hk))
  have hown : (ownBody n.uncommented).map Body.outlined = (ownBody n).map Body.outlined := by
    rw [ownBody,ownBody,Node.child?_uncommented ha.here]
    cases hb : n.child? .body with
    | none => rfl
    | some b => exact hbody b hb
  rw [declarationOf_outlined,declarationOf_outlined,hextended,himplemented,
    componentsOf_uncommented hf ha ht,hown,nameOf_uncommented ha.here,
    telling_modifiersOf_uncommented ha,typeParametersOf_uncommented ha.here]

theorem outlinedPart_field (hk : n.kind = .fieldDecl ∨ n.kind = .constantDecl) :
    outlinedPart n = ((fieldOf n).map FieldDecl.outlined).map fun d => { fields := [d] } := by
  rw [outlinedPart,partOf_field hk]
  cases fieldOf n <;> rfl

theorem outlinedPart_method (hk : n.kind = .methodDecl) :
    outlinedPart n = ((methodOf n).map MethodDecl.outlined).map fun d => { methods := [d] } := by
  rw [outlinedPart,partOf_method hk]
  cases methodOf n <;> rfl

theorem outlinedPart_constructor (hk : n.kind = .constructorDecl) :
    outlinedPart n =
      ((constructorOf n).map ConstructorDecl.outlined).map fun d => { constructors := [d] } := by
  rw [outlinedPart,partOf_constructor hk]
  cases constructorOf n <;> rfl

theorem outlinedPart_constant (hk : n.kind = .enumConstant) :
    outlinedPart n = .ok { constants := [nameOf n] } := by
  rw [outlinedPart,partOf_constant hk]
  rfl

theorem outlinedPart_idle (hk : n.kind.isMember = false) (hf : formOf? n.kind = none) :
    outlinedPart n = .ok {} := by
  rw [outlinedPart,partOf_idle hk hf]
  rfl

theorem outlinedPart_member (hb : n.kind ≠ .enumBodyDecls) (hf : formOf? n.kind = none)
    (ha : n.Throughout Node.SetsCommentsApart)
    (ht : ∀ t ∈ n.memberTypes, t.Throughout Node.TakesNoComment) :
    outlinedPart n.uncommented = outlinedPart n := by
  have hkind := Node.uncommented_kind n
  by_cases h₁ : n.kind = .fieldDecl ∨ n.kind = .constantDecl
  · rw [outlinedPart_field (by rwa [hkind]),outlinedPart_field h₁,
      fieldOf_uncommented ha fun t hmem => ?_]
    exact ht t (by rcases h₁ with hk | hk <;> simpa [Node.memberTypes,hk] using hmem)
  by_cases h₂ : n.kind = .methodDecl
  · have htypes : ∀ t ∈ (n.child? .type).toList ++
        (n.child? .parameters).toList.flatMap Node.listedParameterTypes,
        t.Throughout Node.TakesNoComment := by
      simpa only [Node.memberTypes,h₂] using ht
    rw [outlinedPart_method (hkind.trans h₂),outlinedPart_method h₂,methodOf_uncommented ha
      (fun t hmem => htypes t (List.mem_append_left _ (Option.mem_toList.mpr hmem)))
      fun t hmem => htypes t (List.mem_append_right _ hmem)]
  by_cases h₃ : n.kind = .constructorDecl
  · rw [outlinedPart_constructor (hkind.trans h₃),outlinedPart_constructor h₃,
      constructorOf_uncommented ha (by simpa only [Node.memberTypes,h₃] using ht)]
  by_cases h₄ : n.kind = .enumConstant
  · rw [outlinedPart_constant (hkind.trans h₄),outlinedPart_constant h₄,nameOf_uncommented ha.here]
  · have hidle : n.kind.isMember = false := by
      cases hk : n.kind <;> simp_all [Kind.isMember]
    rw [outlinedPart_idle (by rwa [hkind]) (by rwa [hkind]),outlinedPart_idle hidle hf]

theorem outlinedPart_declaration {form : Form} (hf : formOf? n.kind = some form) :
    outlinedPart n =
      ((declarationOf form n).map Declaration.outlined).map fun d => { members := [d] } := by
  rw [outlinedPart,partOf_declaration hf]
  cases declarationOf form n <;> rfl

theorem outlinedPart_comment {c : Node} (hc : c.kind.isComment = true) :
    outlinedPart c = .ok {} := by
  rcases Kind.isComment_iff.mp hc with hk | hk <;>
    exact outlinedPart_idle (by rw [hk]; rfl) (by rw [hk]; rfl)

theorem outlinedBody_uncommented (ha : n.Throughout Node.SetsCommentsApart)
    (ht : ∀ t ∈ n.typesWithin, t.Throughout Node.TakesNoComment) :
    outlinedBody n.uncommented = outlinedBody n := by
  induction n using Node.size_induction with
  | step n ih =>
    -- A comment adds an empty part to a body, and every other child is read as before.
    rw [outlinedBody_eq,outlinedBody_eq,Node.namedChildren_uncommented]
    refine allOk_uncommented {} (fun c hc _ => ?_) (fun c _ hk => outlinedPart_comment hk)
      fun front back => by simp [Body.append_empty]
    have hmem := Node.mem_children_of_named hc
    have hlt := Node.sizeOf_lt_of_mem_children hmem
    have htypes : ∀ t ∈ (if c.kind = .enumBodyDecls then c.typesWithin
        else if c.declaresType then c.declaredTypes else c.memberTypes),
        t.Throughout Node.TakesNoComment := fun t hmem =>
      ht t (by rw [Node.typesWithin_eq]; exact List.mem_flatMap.mpr ⟨c,hc,hmem⟩)
    by_cases hb : c.kind = .enumBodyDecls
    · rw [if_pos hb] at htypes
      rw [outlinedPart,outlinedPart,partOf_enumBody hb,
        partOf_enumBody ((Node.uncommented_kind c).trans hb)]
      exact ih c hlt (ha.inside c hmem) htypes
    rw [if_neg hb] at htypes
    cases hf : formOf? c.kind with
    | none =>
      rw [if_neg (by simp [Node.declaresType,hf])] at htypes
      exact outlinedPart_member hb hf (ha.inside c hmem) htypes
    | some form =>
      rw [if_pos (by simp [Node.declaresType,hf])] at htypes
      rw [outlinedPart_declaration hf,outlinedPart_declaration (by rwa [Node.uncommented_kind]),
        declarationOf_uncommented hf (ha.inside c hmem)
          (fun t hmem => htypes t (List.mem_append_left _ hmem)) fun b hbody => ?_]
      refine ih b ?_ ((ha.inside c hmem).child hbody) fun t hmem =>
        htypes t (List.mem_append_right _ (by rw [hbody]; exact hmem))
      exact Nat.lt_trans (Node.sizeOf_lt_of_mem_children (Node.mem_children_of_role hbody)) hlt

end Bodies

section Units

def outlinedType? (n : Node) : Option (Result Declaration) :=
  (formOf? n.kind).map fun form => (declarationOf form n).map Declaration.outlined

theorem outlinedType?_uncommented {n : Node} (ha : n.Throughout Node.SetsCommentsApart)
    (ht : n.declaresType = true → ∀ t ∈ n.declaredTypes, t.Throughout Node.TakesNoComment) :
    outlinedType? n.uncommented = outlinedType? n := by
  rw [outlinedType?,outlinedType?,Node.uncommented_kind]
  cases hf : formOf? n.kind with
  | none => rfl
  | some form =>
    have htypes := ht (by simp [Node.declaresType,hf])
    refine congrArg some (declarationOf_uncommented hf ha
      (fun t hmem => htypes t (List.mem_append_left _ hmem)) fun b hb => ?_)
    exact outlinedBody_uncommented (ha.child hb) fun t hmem =>
      htypes t (List.mem_append_right _ (by rw [hb]; exact hmem))

theorem outlinedType?_comment {c : Node} (hc : c.kind.isComment = true) : outlinedType? c = none := by
  rcases Kind.isComment_iff.mp hc with hk | hk <;> rw [outlinedType?,hk] <;> rfl

theorem unitOf_outlined (path : String) (root : Node) :
    (unitOf path root).map SourceUnit.outlined =
      (allOk (root.namedChildren.filterMap outlinedType?)).map fun types =>
        { path := some path,package := packageOf root,imports := importsOf root,types } := by
  have htypes : root.namedChildren.filterMap outlinedType? =
      (root.namedChildren.filterMap fun n =>
        (formOf? n.kind).map fun form => declarationOf form n).map
          (Except.map Declaration.outlined) := by
    rw [List.map_filterMap]
    simp only [Option.map_map]
    rfl
  rw [htypes,allOk_map_map,unitOf_eq]
  cases allOk (root.namedChildren.filterMap fun n =>
    (formOf? n.kind).map fun form => declarationOf form n) <;> rfl

theorem packageOf_uncommented (root : Node) : packageOf root.uncommented = packageOf root := by
  have hfilter := root.filter_namedChildren_uncommented (p := (· = .packageDecl)) ⟨rfl,rfl⟩
  have hname : nameNode? ∘ Node.uncommented = fun n => (nameNode? n).map Node.uncommented :=
    funext nameNode?_uncommented
  rw [packageOf,packageOf,hfilter,List.filterMap_map,hname,← List.map_filterMap,List.getLast?_map,
    Option.map_map]
  exact congrArg (fun f => (Option.map f _).getD "") (funext Node.uncommented_text)

theorem importsOf_uncommented (root : Node) : importsOf root.uncommented = importsOf root := by
  have hfilter := root.filter_namedChildren_uncommented (p := (· = .importDecl)) ⟨rfl,rfl⟩
  have himport : importOf? ∘ Node.uncommented = importOf? := funext importOf?_uncommented
  rw [importsOf,importsOf,hfilter,List.filterMap_map,himport]

variable {root : Node}

theorem types_uncommented (ha : root.Throughout Node.SetsCommentsApart)
    (ht : ∀ t ∈ typeNodes root, t.Throughout Node.TakesNoComment) :
    root.uncommented.namedChildren.filterMap outlinedType? =
      root.namedChildren.filterMap outlinedType? := by
  rw [Node.namedChildren_uncommented,List.filterMap_map,List.filterMap_filter]
  refine List.filterMap_congr fun n hn => ?_
  cases hk : n.kind.isComment with
  | true => rw [if_neg (by simp [Node.isKept,hk]),outlinedType?_comment hk]
  | false =>
    rw [if_pos (by simp [Node.isKept,hk])]
    refine outlinedType?_uncommented (ha.inside n (Node.mem_children_of_named hn)) fun hd t hmem => ?_
    exact ht t (List.mem_flatMap.mpr ⟨n,List.mem_filter.mpr ⟨hn,hd⟩,hmem⟩)

theorem unitOf_uncommented (path : String) (ha : root.Throughout Node.SetsCommentsApart)
    (ht : ∀ t ∈ typeNodes root, t.Throughout Node.TakesNoComment) :
    (unitOf path root.uncommented).map SourceUnit.outlined =
      (unitOf path root).map SourceUnit.outlined := by
  rw [unitOf_outlined,unitOf_outlined,types_uncommented ha ht,packageOf_uncommented,
    importsOf_uncommented]

theorem comments_outside_types_leave_no_trace (path : String)
    (ha : root.Throughout Node.SetsCommentsApart)
    (ht : ∀ t ∈ typeNodes root, t.Throughout Node.TakesNoComment) :
    (root.uncommented.Throughout fun n => ∀ c ∈ n.children, c.kind.isComment = false) ∧
    ((∃ unit, unitOf path root = .ok unit) ↔ ∃ bare, unitOf path root.uncommented = .ok bare) ∧
    ∀ unit bare, unitOf path root = .ok unit → unitOf path root.uncommented = .ok bare →
      ∀ o package, unit.document o package = bare.document o package := by
  have heq := unitOf_uncommented path ha ht
  refine ⟨root.uncommented_has_no_comments,⟨?_,?_⟩,fun unit bare hunit hbare o package => ?_⟩
  · rintro ⟨unit,hunit⟩
    rw [hunit] at heq
    obtain ⟨bare,hbare,_⟩ := map_eq_ok.mp heq
    exact ⟨bare,hbare⟩
  · rintro ⟨bare,hbare⟩
    rw [hbare] at heq
    obtain ⟨unit,hunit,_⟩ := map_eq_ok.mp heq.symm
    exact ⟨unit,hunit⟩
  · rw [hunit,hbare] at heq
    have houtlined : bare.outlined = unit.outlined := Except.ok.inj heq
    rw [← unit.document_outlined,← houtlined,bare.document_outlined]

end Units

def keysType : Node :=
  { kind := .genericType,role := some .type,text := "List<? extends /* any */ Key>"
    children := [{ kind := .typeIdentifier,text := "List" },
      { kind := .typeArguments
        children := [{ kind := .wildcard,text := "? extends /* any */ Key"
                       children := [{ kind := .extendsWord,named := false,text := "extends" },
                         { kind := .blockComment,text := "/* any */" },
                         { kind := .typeIdentifier,text := "Key" }] }] }] }

def keyringBody : Node :=
  { kind := .other "class_body",role := some .body
    children := [{ kind := .lineComment,text := "// by owner" },
      { kind := .fieldDecl
        children := [{ kind := .modifiers
                       children := [{ kind := .blockComment,text := "/* was public */" },
                         { kind := .other "private",named := false,text := "private" }] },
          keysType,
          { kind := .variableDeclarator,role := some .declarator
            children := [{ kind := .identifier,role := some .name,text := "keys" }] }] }] }

def keyring : Node :=
  { kind := .program
    children := [{ kind := .lineComment,text := "// Keys are never copied." },
      { kind := .classDecl
        children := [{ kind := .modifiers
                       children := [{ kind := .other "public",named := false,text := "public" },
                         { kind := .blockComment,text := "/* final */" }] },
          { kind := .identifier,role := some .name,text := "Keyring" },keyringBody] }] }

def keyringUnit (classWords fieldWords : List String) : SourceUnit :=
  { path := some "Keyring.java"
    types := [{ form := .cls,name := "Keyring",modifiers := classWords
                fields := [⟨fieldWords,
                  { text := "List<? extends Key>",baseName := some "List"
                    arguments := some [{ text := "? extends Key" }] },
                  [⟨"keys","List<? extends Key>"⟩]⟩] }] }

theorem comments_outside_types_leave_no_trace_keyring :
    keyring.Throughout Node.SetsCommentsApart ∧
    (∀ t ∈ typeNodes keyring, t.Throughout Node.TakesNoComment) ∧
    ∃ unit bare, unitOf "Keyring.java" keyring = .ok unit ∧
      unitOf "Keyring.java" keyring.uncommented = .ok bare ∧ unit ≠ bare ∧
      ∀ o package, unit.document o package = bare.document o package := by
  have ha : keyring.Throughout Node.SetsCommentsApart := by decide
  have hbody : keyringBody.typesWithin = [keysType] := by
    rw [Node.typesWithin_eq]
    rfl
  have hnodes : typeNodes keyring = ([] ++ keyringBody.typesWithin) ++ [] := rfl
  have ht : ∀ t ∈ typeNodes keyring, t.Throughout Node.TakesNoComment := by
    rw [hnodes,hbody]
    decide
  obtain ⟨_,_,hsame⟩ := comments_outside_types_leave_no_trace "Keyring.java" ha ht
  refine ⟨ha,ht,keyringUnit ["public","/* final */"] ["/* was public */","private"],
    keyringUnit ["public"] ["private"],rfl,rfl,?_,hsame _ _ rfl rfl⟩
  simp [keyringUnit]

def shelfType : Node :=
  { kind := .genericType,role := some .type,text := "List</* by title */ Book>"
    children := [{ kind := .typeIdentifier,text := "List" },
      { kind := .typeArguments,text := "</* by title */ Book>"
        children := [{ kind := .blockComment,text := "/* by title */" },
          { kind := .typeIdentifier,text := "Book" }] }] }

def shelf : Node :=
  { kind := .program
    children := [{ kind := .classDecl
                   children := [{ kind := .identifier,role := some .name,text := "Shelf" },
                     { kind := .other "class_body",role := some .body
                       children := [{ kind := .fieldDecl
                                      children := [shelfType,
                                        { kind := .variableDeclarator,role := some .declarator
                                          children := [{ kind := .identifier,role := some .name
                                                         text := "books" }] }] }] }] }] }

theorem comment_among_type_arguments_is_drawn :
    shelf.Throughout Node.SetsCommentsApart ∧
    ∃ unit bare, unitOf "Shelf.java" shelf = .ok unit ∧
      unitOf "Shelf.java" shelf.uncommented = .ok bare ∧
      (unit.document {} none).relationships =
        [⟨.composition,"List</* by title */, Book>","Shelf"⟩] ∧
      (bare.document {} none).relationships = [⟨.composition,"List<Book>","Shelf"⟩] ∧
      unit.document {} none ≠ bare.document {} none := by
  refine ⟨by decide,_,_,rfl,rfl,rfl,rfl,fun hsame => ?_⟩
  exact absurd (congrArg Document.relationships hsame) (by decide)

end ClassDiagram.Java
