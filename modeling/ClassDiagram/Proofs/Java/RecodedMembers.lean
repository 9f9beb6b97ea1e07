import ClassDiagram.Proofs.Java.Recoded

/-!
Members and declarations read from trees that differ only in executable code. A member is found in a list by
its kind and its parts by their roles, so what is found is never a node of code, and what is code in a list
adds nothing to it.
-/

namespace ClassDiagram.Java

section Members

variable {g : Option Kind} {n m : Node}

theorem Sealed.role {p c : Node} (h : Sealed g p c) (hg : inTypeDecl g = false)
    (hk : p.kind.isTypeBody = false) :
    c.role = some .body ∨ c.role = some .arguments ∨ c.role = some .value := by
  cases h.code with
  | routine _ hrole _ => exact .inl hrole
  | initializer hp _ =>
    rcases hp with ⟨hdecl,_⟩ | hp
    · rw [hg] at hdecl
      cases hdecl
    · rw [hk] at hp
      cases hp
  | constant _ hrole => exact hrole.imp_right .inl
  | value _ _ hrole => exact .inr (.inr hrole)

theorem typesListed_recoded (h : Recoded Sealed g n m) (hn : n.kind.holdsAny = false)
    (hf : formOf? n.kind = none) : typesListed m = typesListed n := by
  induction n using Node.size_induction generalizing g m with
  | step n ih =>
    have hg : inTypeDecl (some n.kind) = false := by simp [inTypeDecl,hf]
    rw [typesListed_parts,typesListed_parts]
    refine congrArg (fun rs => (allOk rs).map List.flatten)
      (map_eq_of_forall₂ (h.namedChildren.imp fun c d hcd => ?_))
    obtain ⟨hc,hslot⟩ := hcd
    rw [hslot.same.kind]
    cases hslot with
    | kept hcd =>
      split
      · rename_i hk
        exact ih c (Node.sizeOf_lt_of_mem_children (Node.mem_children_of_named hc)) hcd (by rw [hk]; rfl)
          (by rw [hk]; rfl)
      · rw [typeRef_recoded hcd hg]
    | replaced hcode _ =>
      have hlist : c.kind ≠ .typeList := fun hk =>
        Sealed.not_kind (· = .typeList) ⟨rfl,rfl,rfl⟩ hn (by simp [hk]) hcode
      have htype : ¬ c.kind.isType = true := fun hk =>
        Sealed.not_kind Kind.isType ⟨rfl,rfl,rfl⟩ hn hk hcode
      simp [hlist,htype]

theorem formalType_recoded (h : Recoded Sealed g n m) (hk : n.kind = .formalParameter) :
    formalType m = formalType n := by
  have hpart : ∀ role ∈ [Role.type,.dimensions], ∀ c, c.role = some role → ¬ Sealed g n c :=
    fun role hrole c hc => Sealed.not_part hc (by rw [hk]; exact List.mem_cons_of_mem _ hrole)
  have hg : inTypeDecl (some n.kind) = false := by rw [hk]; rfl
  have htext := h.read_child? (hpart .type (by simp)) typeText? fun c _ _ d hcd => typeText_recoded hcd hg
  have htype := h.read_child? (hpart .type (by simp)) typeRef? fun c _ _ d hcd => typeRef_recoded hcd hg
  rw [formalType,formalType,h.brackets_eq (hpart .dimensions (by simp)),htext,htype]

theorem spreadName_recoded (h : Recoded Sealed g n m) (hk : n.kind = .spreadParameter) :
    spreadName m = spreadName n := by
  have hfind := h.named? (· = .variableDeclarator) ⟨rfl,rfl,rfl⟩ (by rw [hk]; rfl)
  rw [spreadName,spreadName]
  rcases hfind with ⟨hn,hm⟩ | ⟨c,d,hn,hm,hc,hcd⟩ <;> rw [hn,hm]
  refine hcd.nameOf_eq fun x hx hcode => ?_
  have hvariable : c.kind = .variableDeclarator := by simpa using hc.2
  have hrole := hcode.role (by rw [hk]; rfl) (by rw [hvariable]; rfl)
  simp [hx] at hrole

theorem parameterOf_recoded (h : Recoded Sealed g n m) : parameterOf m = parameterOf n := by
  have hkind := h.kind
  by_cases hformal : n.kind = .formalParameter
  · have hname := h.nameOf_eq fun c hc => Sealed.not_part hc (by rw [hformal]; simp [Kind.rolesRead])
    rw [parameterOf_eq_formalType (hkind.trans hformal),parameterOf_eq_formalType hformal,
      formalType_recoded h hformal,h.modifiersOf_eq (by rw [hformal]; rfl),hname]
  by_cases hspread : n.kind = .spreadParameter
  · have hfind := h.named? Kind.isType ⟨rfl,rfl,rfl⟩ (by rw [hspread]; rfl)
    have htype : typeRef? (m.namedChildren.find? (·.kind.isType)) =
        typeRef? (n.namedChildren.find? (·.kind.isType)) := by
      rcases hfind with ⟨hn,hm⟩ | ⟨c,d,hn,hm,_,hcd⟩ <;> rw [hn,hm]
      exact typeRef_recoded hcd (by rw [hspread]; rfl)
    rw [parameterOf_eq_spread (hkind.trans hspread),parameterOf_eq_spread hspread,htype,
      spreadName_recoded h hspread,h.modifiersOf_eq (by rw [hspread]; rfl)]
  · rw [parameterOf_idle hformal hspread,parameterOf_idle (by rwa [hkind]) (by rwa [hkind])]

theorem parametersOf_recoded (h : Recoded Sealed g n m)
    (hread : ∀ c, c.named = true → c.kind = .formalParameter ∨ c.kind = .spreadParameter →
      ¬ Sealed g n c) :
    parametersOf (some m) = parametersOf (some n) := by
  have hall : m.namedChildren.map parameterOf = n.namedChildren.map parameterOf := by
    refine map_eq_of_forall₂ (h.namedChildren.imp fun c d hcd => ?_)
    obtain ⟨hc,hslot⟩ := hcd
    cases hslot with
    | kept hcd => exact parameterOf_recoded hcd
    | replaced hcode hsame =>
      have hnot : c.kind ≠ .formalParameter ∧ c.kind ≠ .spreadParameter :=
        not_or.mp fun hk => hread c (List.mem_filter.mp hc).2 hk hcode
      rw [parameterOf_idle hnot.1 hnot.2,parameterOf_idle (by rw [hsame.kind]; exact hnot.1)
        (by rw [hsame.kind]; exact hnot.2)]
  rw [parametersOf,parametersOf,hall]

theorem fieldOf_recoded (h : Recoded Sealed g n m) (hk : n.kind.isField = true) :
    fieldOf m = fieldOf n := by
  have hkind : n.kind = .fieldDecl ∨ n.kind = .constantDecl := by simpa [Kind.isField] using hk
  have hroles : n.kind.rolesRead = [.type,.declarator] := by rcases hkind with hk | hk <;> rw [hk] <;> rfl
  have hg : inTypeDecl (some n.kind) = false := by rcases hkind with hk | hk <;> rw [hk] <;> rfl
  have hpart : ∀ role ∈ [Role.type,.declarator], ∀ c, c.role = some role → ¬ Sealed g n c :=
    fun role hrole c hc => Sealed.not_part hc (by rw [hroles]; exact hrole)
  have htext := h.read_child? (hpart .type (by simp)) typeText? fun c _ _ d hcd => typeText_recoded hcd hg
  have htype := h.read_child? (hpart .type (by simp)) elementRef? fun c _ _ d hcd => elementRef_recoded hcd hg
  have hvariables : ∀ text, (m.childrenIn .declarator).map (fun d =>
        ({ name := nameOf d,type := text ++ brackets (d.child? .dimensions) } : Declarator)) =
      (n.childrenIn .declarator).map fun d =>
        { name := nameOf d,type := text ++ brackets (d.child? .dimensions) } := by
    intro text
    refine h.map_filter (fun _ _ hcd => by rw [hcd.role]) (fun c hc => ?_) fun c _ hc d hcd => ?_
    · exact hpart .declarator (by simp) c (by simpa using hc)
    · have hplace : inField (some n.kind) = true := hk
      have hdeclarator : c.role = some .declarator := by simpa using hc
      rw [hcd.nameOf_eq fun x hx hcode => hcode.unread (.declarator hplace hdeclarator (.inl hx)),
        hcd.brackets_eq fun x hx hcode => hcode.unread (.declarator hplace hdeclarator (.inr hx))]
  have hmodifiers := h.modifiersOf_eq (by rcases hkind with hk | hk <;> rw [hk] <;> rfl)
  simp only [fieldOf,htext,htype,hvariables,hmodifiers]

theorem routine_recoded (h : Recoded Sealed g n m) (hk : n.kind.isRoutine = true) :
    modifiersOf m = modifiersOf n ∧ nameOf m = nameOf n ∧
      parametersOf (m.child? .parameters) = parametersOf (n.child? .parameters) := by
  have hkind : n.kind = .methodDecl ∨ n.kind = .constructorDecl := by simpa [Kind.isRoutine] using hk
  have hpart : ∀ role ∈ [Role.name,.parameters], ∀ c, c.role = some role → ¬ Sealed g n c := by
    intro role hrole c hc
    refine Sealed.not_part hc ?_
    rcases hkind with hk | hk <;> rw [hk] <;> revert role <;> simp [Kind.rolesRead]
  have hplace : inRoutine (some n.kind) = true := hk
  refine ⟨h.modifiersOf_eq ?_,h.nameOf_eq (hpart .name (by simp)),?_⟩
  · rcases hkind with hk | hk <;> rw [hk] <;> rfl
  · refine h.read_child? (hpart .parameters (by simp)) parametersOf fun list _ hlist other hother => ?_
    refine parametersOf_recoded hother fun c hnamed hc => ?_
    refine Sealed.not_listed (.inr (.inr ⟨hplace,hlist⟩)) hnamed ?_
    rcases hc with hc | hc <;> rw [hc] <;> rfl

theorem methodOf_recoded (h : Recoded Sealed g n m) (hk : n.kind = .methodDecl) :
    methodOf m = methodOf n := by
  obtain ⟨hmodifiers,hname,hparameters⟩ := routine_recoded h (by rw [hk]; rfl)
  have htype := h.read_child? (fun c hc => Sealed.not_part hc (by rw [hk]; simp [Kind.rolesRead])) typeRef?
    fun c _ (_ : c.role = some .type) d hcd => typeRef_recoded hcd (by rw [hk]; rfl)
  rw [methodOf,methodOf,hmodifiers,hname,hparameters,htype]

theorem constructorOf_recoded (h : Recoded Sealed g n m) (hk : n.kind = .constructorDecl) :
    constructorOf m = constructorOf n := by
  obtain ⟨hmodifiers,hname,hparameters⟩ := routine_recoded h (by rw [hk]; rfl)
  rw [constructorOf,constructorOf,hmodifiers,hname,hparameters]

end Members

section Declarations

variable {g : Option Kind} {n m : Node}

theorem typeParametersOf_recoded (h : Recoded Sealed g n m) {form : Form}
    (hf : formOf? n.kind = some form) (hroles : n.kind.rolesRead = [.name,.typeParameters,.body]) :
    typeParametersOf m = typeParametersOf n := by
  have hplace : inTypeDecl (some n.kind) = true := by simp [inTypeDecl,hf]
  have hread : ∀ c, c.role = some .typeParameters → ¬ Sealed g n c := fun c hc =>
    Sealed.not_part hc (by simp [hroles])
  rw [typeParametersOf,typeParametersOf]
  rcases h.child? hread with ⟨hn,hm⟩ | ⟨list,other,hn,hm,hlist,hother⟩ <;> rw [hn,hm]
  simp only
  rw [List.filterMap_filter,List.filterMap_filter]
  refine filterMap_eq_of_forall₂ (hother.namedChildren.imp fun c d hcd => ?_)
  obtain ⟨hc,hslot⟩ := hcd
  rw [hslot.same.kind]
  split
  · rename_i hk
    have hparameter : c.kind = .typeParameter := by simpa using hk
    cases hslot with
    | kept hcd =>
      have hfind := hcd.named? (fun k => k = .typeIdentifier || k = .identifier) ⟨rfl,rfl,rfl⟩
        (by rw [hparameter]; rfl)
      rcases hfind with ⟨hn,hm⟩ | ⟨x,y,hn,hm,_,hxy⟩ <;> rw [hn,hm]
      exact congrArg some hxy.text
    | replaced hcode _ =>
      refine absurd hcode (Sealed.not_listed (.inr (.inl ⟨hplace,.inr hlist.2⟩)) (List.mem_filter.mp hc).2 ?_)
      rw [hparameter]
      rfl
  · rfl

theorem declarationOf_recoded (h : Recoded Sealed g n m) {form : Form} (hf : formOf? n.kind = some form)
    (hbody : ∀ b ∈ n.children, b.role = some .body → ∀ c, Recoded Sealed (some n.kind) b c →
      bodyOf c = bodyOf b) :
    declarationOf form m = declarationOf form n := by
  have hroles : n.kind.rolesRead = [.name,.typeParameters,.body] := by
    cases hk : n.kind <;> simp_all [formOf?,Kind.rolesRead]
  have hpart : ∀ role ∈ [Role.name,.typeParameters,.body], ∀ c, c.role = some role → ¬ Sealed g n c :=
    fun role hrole c hc => Sealed.not_part hc (by rw [hroles]; exact hrole)
  have hany : n.kind.holdsAny = false := by cases hk : n.kind <;> simp_all [formOf?,Kind.holdsAny]
  have hlisted : ∀ k : Kind → Bool, (∀ x, k x = true → x = .superclass ∨ x = .extendsInterfaces ∨
      x = .superInterfaces) → (m.children.filter fun c => k c.kind).map typesListed =
        (n.children.filter fun c => k c.kind).map typesListed := by
    intro k hk
    have hnot : k .block = false ∧ k .constructorBody = false ∧ k .staticInitializer = false := by
      refine ⟨?_,?_,?_⟩ <;> exact Bool.eq_false_iff.mpr fun hx => by simpa using hk _ hx
    refine h.map_filter (fun _ _ hcd => by rw [hcd.kind])
      (fun c => Sealed.not_kind k hnot hany) fun c _ hc d hcd => ?_
    rcases hk c.kind hc with hc | hc | hc <;>
      exact typesListed_recoded hcd (by rw [hc]; rfl) (by rw [hc]; rfl)
  have hcomponents : componentsOf form m = componentsOf form n := by
    have hlists : (m.children.filter (·.kind = .formalParameters)).map (fun c => parametersOf (some c)) =
        (n.children.filter (·.kind = .formalParameters)).map fun c => parametersOf (some c) := by
      refine h.map_filter (fun _ _ hcd => by rw [hcd.kind])
        (fun c => Sealed.not_kind (· = .formalParameters) ⟨rfl,rfl,rfl⟩ hany) fun c _ hc d hcd => ?_
      have hk : c.kind = .formalParameters := by simpa using hc
      refine parametersOf_recoded hcd fun x _ hx => ?_
      exact Sealed.not_kind (fun k => k = .formalParameter || k = .spreadParameter) ⟨rfl,rfl,rfl⟩
        (by rw [hk]; rfl) (by simpa using hx)
    rw [componentsOf,componentsOf,hlists]
  have hown : ownBody m = ownBody n := by
    rw [ownBody_eq,ownBody_eq]
    exact h.read_child? (hpart .body (by simp)) bodyOf? hbody
  rw [declarationOf_eq,declarationOf_eq,hlisted (fun k => k = .superclass || k = .extendsInterfaces)
      (by simp),hlisted (· = .superInterfaces) (by simp),hcomponents,hown,
    h.nameOf_eq (hpart .name (by simp)),h.modifiersOf_eq hany,
    typeParametersOf_recoded h hf hroles]

theorem partOf_recoded (h : Recoded Sealed g n m)
    (hdeclaration : ∀ form, formOf? n.kind = some form → declarationOf form m = declarationOf form n)
    (hbody : n.kind = .enumBodyDecls → bodyOf m = bodyOf n) : partOf m = partOf n := by
  have hkind := h.kind
  by_cases hfield : n.kind.isField = true
  · have hk : n.kind = .fieldDecl ∨ n.kind = .constantDecl := by simpa [Kind.isField] using hfield
    rw [partOf_field (by rwa [hkind]),partOf_field hk,fieldOf_recoded h hfield]
  by_cases hmethod : n.kind = .methodDecl
  · rw [partOf_method (hkind.trans hmethod),partOf_method hmethod,methodOf_recoded h hmethod]
  by_cases hconstructor : n.kind = .constructorDecl
  · rw [partOf_constructor (hkind.trans hconstructor),partOf_constructor hconstructor,
      constructorOf_recoded h hconstructor]
  by_cases hconstant : n.kind = .enumConstant
  · rw [partOf_constant (hkind.trans hconstant),partOf_constant hconstant,
      h.nameOf_eq fun c hc => Sealed.not_part hc (by rw [hconstant]; simp [Kind.rolesRead])]
  by_cases henum : n.kind = .enumBodyDecls
  · rw [partOf_enumBody (hkind.trans henum),partOf_enumBody henum,hbody henum]
  cases hf : formOf? n.kind with
  | some form =>
    rw [partOf_declaration hf,partOf_declaration (by rw [hkind]; exact hf),hdeclaration form hf]
  | none =>
    have hmember : n.kind.isMember = false := by cases hk : n.kind <;> simp_all [Kind.isMember,Kind.isField]
    rw [partOf_idle hmember hf,partOf_idle (by rwa [hkind]) (by rwa [hkind])]

-- A body is read as a list of members, so a node of code in it that is replaced is none of them.
theorem bodyOf_recoded (h : Recoded Sealed g n m)
    (hlist : ReadAsList g n ∨ n.kind = .enumBodyDecls) : bodyOf m = bodyOf n := by
  induction n using Node.size_induction generalizing g m with
  | step n ih =>
    rw [bodyOf_eq,bodyOf_eq]
    refine congrArg (fun rs => (allOk rs).map fun parts => parts.foldl Body.append {})
      (map_eq_of_forall₂ (h.namedChildren.imp fun c d hcd => ?_))
    obtain ⟨hc,hslot⟩ := hcd
    obtain ⟨hmem,hnamed⟩ := List.mem_filter.mp hc
    have hsize := Node.sizeOf_lt_of_mem_children hmem
    cases hslot with
    | kept hcd =>
      refine partOf_recoded hcd (fun form hf => ?_) fun henum => ih c hsize hcd (.inr henum)
      refine declarationOf_recoded hcd hf fun b hb hrole e hbe => ?_
      refine ih b (Nat.lt_trans (Node.sizeOf_lt_of_mem_children hb) hsize) hbe (.inl (.inr (.inl ⟨?_,.inl hrole⟩)))
      simp [inTypeDecl,hf]
    | replaced hcode hsame =>
      have hnot : ¬ c.kind.isListed = true := by
        intro hk
        rcases hlist with hlist | henum
        · exact Sealed.not_listed hlist hnamed hk hcode
        · exact Sealed.not_kind Kind.isListed ⟨rfl,rfl,rfl⟩ (by rw [henum]; rfl) hk hcode
      have hmember : c.kind.isMember = false := by simp_all [Kind.isListed]
      have hf : formOf? c.kind = none := by simp_all [Kind.isListed]
      rw [partOf_idle hmember hf,partOf_idle (by rwa [hsame.kind]) (by rwa [hsame.kind])]

end Declarations

end ClassDiagram.Java
