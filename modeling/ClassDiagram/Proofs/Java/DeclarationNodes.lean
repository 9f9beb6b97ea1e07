import ClassDiagram.Proofs.Java.Assembled

/-!
The nodes of a tree that declare types, in the order of the source, and the declarations read from them.
Reading a tree gives one declaration for each such node, in that order, whatever the tree is like.
-/

namespace ClassDiagram.Java

def Node.declarationsWithin (body : Node) : List Node :=
  body.namedChildren.attach.flatMap fun ⟨c, _⟩ =>
    if c.kind = .enumBodyDecls then c.declarationsWithin
    else if c.declaresType then
      c :: match _hb : c.child? .body with
        | none => []
        | some b => b.declarationsWithin
    else []
termination_by sizeOf body
decreasing_by
  all_goals
    have hlt := Node.sizeOf_lt_of_mem_children (Node.mem_children_of_named ‹c ∈ body.namedChildren›)
  · exact hlt
  · exact Nat.lt_trans (Node.sizeOf_lt_of_mem_children (Node.mem_children_of_role _hb)) hlt

def Node.declarationsBelow (n : Node) : List Node :=
  n :: match n.child? .body with
    | none => []
    | some b => b.declarationsWithin

def declarationNodes (root : Node) : List Node :=
  (root.namedChildren.filter Node.declaresType).flatMap Node.declarationsBelow

theorem Node.declarationsWithin_eq (body : Node) :
    body.declarationsWithin = body.namedChildren.flatMap fun c =>
      if c.kind = .enumBodyDecls then c.declarationsWithin
      else if c.declaresType then c.declarationsBelow
      else [] := by
  rw [Node.declarationsWithin]
  refine (List.flatMap_subtype fun c _ => ?_).trans (by rw [List.unattach_attach])
  simp only [Node.declarationsBelow]
  split
  · rfl
  · split
    · refine congrArg (List.cons c) ?_
      split <;> split <;> simp_all
    · rfl

def Declares (n : Node) (d : Declaration) : Prop :=
  ∃ form, formOf? n.kind = some form ∧ declarationOf form n = .ok d

theorem declarationsBelow_walk {n : Node} {d : Declaration} (h : Declares n d)
    (hbody : ∀ b body, n.child? .body = some b → bodyOf b = .ok body →
      List.Forall₂ Declares b.declarationsWithin (Declaration.walkFrom body.members)) :
    List.Forall₂ Declares n.declarationsBelow (Declaration.walkFrom [d]) := by
  obtain ⟨form,hf,hd⟩ := h
  obtain ⟨body,hown,hmembers⟩ := declarationOf_members hd
  have hnil : Declaration.walkFrom [] = [] := by rw [Declaration.walkFrom]
  rw [Declaration.walkFrom_cons,hnil,List.append_nil,hmembers,Node.declarationsBelow]
  refine .cons ⟨form,hf,hd⟩ ?_
  rw [ownBody] at hown
  cases hb : n.child? .body with
  | none =>
    rw [hb] at hown
    cases hown
    rw [hnil]
    exact .nil
  | some b =>
    rw [hb] at hown
    exact hbody b body hb hown

theorem walkFrom_flatMap (parts : List Body) :
    Declaration.walkFrom (parts.flatMap Body.members) =
      parts.flatMap fun part => Declaration.walkFrom part.members := by
  induction parts with
  | nil => simp [Declaration.walkFrom]
  | cons part parts ih => rw [List.flatMap_cons,List.flatMap_cons,Declaration.walkFrom_append,ih]

theorem declarationsWithin_walk {n : Node} {body : Body} (h : bodyOf n = .ok body) :
    List.Forall₂ Declares n.declarationsWithin (Declaration.walkFrom body.members) := by
  induction hn : sizeOf n using Nat.strongRecOn generalizing n body with
  | ind size ih =>
    subst hn
    obtain ⟨parts,hparts,hmembers⟩ := bodyOf_eq_ok h
    rw [Node.declarationsWithin_eq,hmembers,walkFrom_flatMap]
    refine forall₂_flatMap hparts fun c hc part hpart => ?_
    have hlt := Node.sizeOf_lt_of_mem_children (Node.mem_children_of_named hc)
    by_cases hk : c.kind = .enumBodyDecls
    · rw [if_pos hk]
      rw [partOf_enumBody hk] at hpart
      exact ih _ hlt hpart rfl
    · rw [if_neg hk]
      cases hf : formOf? c.kind with
      | none =>
        rw [if_neg (by simp [Node.declaresType,hf]),partOf_members_eq_nil hpart hk hf,
          Declaration.walkFrom]
        exact .nil
      | some form =>
        rw [partOf_declaration hf,map_eq_ok] at hpart
        obtain ⟨d,hd,rfl⟩ := hpart
        rw [if_pos (by simp [Node.declaresType,hf])]
        refine declarationsBelow_walk ⟨form,hf,hd⟩ fun b body hb hbody => ih _ ?_ hbody rfl
        exact Nat.lt_trans (Node.sizeOf_lt_of_mem_children (Node.mem_children_of_role hb)) hlt

theorem filterMap_declarations {ns : List Node} {ds : List Declaration}
    (h : allOk (ns.filterMap fun n => (formOf? n.kind).map fun form => declarationOf form n) =
      .ok ds) :
    List.Forall₂ Declares (ns.filter Node.declaresType) ds := by
  rw [allOk_eq_ok] at h
  induction ns generalizing ds with
  | nil =>
    cases h
    exact .nil
  | cons n ns ih =>
    cases hf : formOf? n.kind with
    | none =>
      rw [List.filterMap_cons,hf] at h
      rw [List.filter_cons_of_neg (by simp [Node.declaresType,hf])]
      exact ih h
    | some form =>
      rw [List.filterMap_cons,hf] at h
      rw [List.filter_cons_of_pos (by simp [Node.declaresType,hf])]
      cases h with
      | cons hd hds => exact .cons ⟨form,hf,hd⟩ (ih hds)

theorem walkFrom_eq_flatMap (ds : List Declaration) :
    Declaration.walkFrom ds = ds.flatMap fun d => Declaration.walkFrom [d] := by
  induction ds with
  | nil => simp [Declaration.walkFrom]
  | cons d ds ih =>
    rw [List.flatMap_cons,← ih,← Declaration.walkFrom_append,List.singleton_append]

theorem declarationNodes_walk {path : String} {root : Node} {unit : SourceUnit}
    (h : unitOf path root = .ok unit) :
    List.Forall₂ Declares (declarationNodes root) unit.walk := by
  rw [unitOf_eq,bind_eq_ok] at h
  obtain ⟨types,htypes,hunit⟩ := h
  cases hunit
  rw [SourceUnit.walk,walkFrom_eq_flatMap]
  exact forall₂_flatMap (filterMap_declarations htypes) fun n _ d hd =>
    declarationsBelow_walk hd fun _ _ _ hbody => declarationsWithin_walk hbody

theorem declarationNodes_entities {path : String} {root : Node} {unit : SourceUnit}
    (h : unitOf path root = .ok unit) (o : DiagramOptions) (package : Option String) :
    List.Forall₂ (fun n e => ∃ d, Declares n d ∧ d.DrawnAs e)
      (declarationNodes root) (unit.document o package).types := by
  have hnodes := declarationNodes_walk h
  have hentities := unit.walk_drawnAs o package
  generalize declarationNodes root = nodes at hnodes ⊢
  generalize unit.walk = ds at hnodes hentities
  generalize (unit.document o package).types = entities at hentities ⊢
  induction hnodes generalizing entities with
  | nil =>
    cases hentities
    exact .nil
  | cons hd _ ih =>
    cases hentities with
    | cons he hes => exact .cons ⟨_,hd,he⟩ (ih _ hes)

theorem lowered_declarations_exact {path : String} {root : Node} {unit : SourceUnit}
    (h : unitOf path root = .ok unit) (o : DiagramOptions) (package : Option String) :
    (assemblyOf root = .ok unit.assembled ∧
      unit.assembled.Represents 0 unit ∧
      unit.assembled.walk 0 = List.range unit.walk.length ∧
      ∀ d ∈ unit.assembled.walk 0, ∃ k, unit.assembled.parent? d = some k ∧
        (∀ k', d ∈ unit.assembled.listed k' ↔ k' = k) ∧ (unit.assembled.listed k).Nodup) ∧
    List.Forall₂ Declares (declarationNodes root) unit.walk ∧
    (∀ (s : Session) (k : Nat), s.assembly.Represents k unit → s.viewpoint.options = o →
      ∃ c, s.perform (.buildDocument k package) = ({ s with canvas := c },.done) ∧
        c.documents[s.canvas.pages.length]? = some (unit.document o package)) ∧
    List.Forall₂ (fun n e => ∃ d, Declares n d ∧ d.DrawnAs e)
      (declarationNodes root) (unit.document o package).types := by
  have hassembly : assemblyOf root = .ok unit.assembled := by
    rw [assemblyOf_eq path,h]
    rfl
  refine ⟨⟨hassembly,unit.assembled_represents,unit.assembled_walk,fun d hd => ?_⟩,
    declarationNodes_walk h,?_,declarationNodes_entities h o package⟩
  · obtain ⟨k,hk⟩ := unit.assembled_represents.parent_of_walk hd
    refine ⟨k,hk,fun k' => ?_,unit.assembled_linked.nodup k⟩
    rw [unit.assembled_linked.listed_iff,hk,Option.some.injEq,eq_comm]
  · rintro s k r rfl
    exact s.buildDocument_of_represents r package

def nameLeaf (name : String) : Node := { kind := .identifier,role := some .name,text := name }

def enumInsideClass : Node :=
  { kind := .program
    children := [{ kind := .classDecl
                   children := [{ kind := .identifier,role := some .name,text := "A" },
                     { kind := .other "class_body",role := some .body
                       children := [{ kind := .enumDecl
                                      children := [{ kind := .identifier,role := some .name
                                                     text := "B" },
                                        { kind := .other "enum_body",role := some .body
                                          children := [{ kind := .enumBodyDecls
                                                         children := [{ kind := .recordDecl }] }] }] }] }] }] }

def enumInsideClassUnit : SourceUnit :=
  { path := some "A.java"
    types := [{ form := .cls,name := "A"
                members := [{ form := .enum,name := "B"
                              members := [{ form := .record,name := "" }] }] }] }

theorem lowered_declarations_exact_enumInsideClass :
    unitOf "A.java" enumInsideClass = .ok enumInsideClassUnit ∧
    assemblyOf enumInsideClass = .ok enumInsideClassUnit.assembled ∧
    List.Forall₂ Declares (declarationNodes enumInsideClass) enumInsideClassUnit.walk ∧
    (∃ c, Session.perform { assembly := enumInsideClassUnit.assembled } (.buildDocument 0 none) =
        ({ assembly := enumInsideClassUnit.assembled,canvas := c },.done) ∧
      c.documents[0]? = some (enumInsideClassUnit.document {} none)) ∧
    List.Forall₂ (fun n e => ∃ d, Declares n d ∧ d.DrawnAs e)
      (declarationNodes enumInsideClass) (enumInsideClassUnit.document {} none).types := by
  have h : unitOf "A.java" enumInsideClass = .ok enumInsideClassUnit := rfl
  obtain ⟨⟨hassembly,r,_,_⟩,hwalk,hbuild,hentities⟩ := lowered_declarations_exact h {} none
  exact ⟨h,hassembly,hwalk,hbuild { assembly := enumInsideClassUnit.assembled } 0 r rfl,hentities⟩

end ClassDiagram.Java
