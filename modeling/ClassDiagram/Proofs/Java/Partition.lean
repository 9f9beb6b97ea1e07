import ClassDiagram.Proofs.Java.DeclarationNodes
import ClassDiagram.Proofs.Java.TypeReading

/-!
Bodies taken apart. The declarations after the constants of an enumeration are read as if they stood in its
body itself. Of the elements that a body has in this way, each list of what is read holds the readings of those
of one kind, of all of them and in their order; elements of no such kind leave nothing.
-/

namespace ClassDiagram.Java

def Node.elements (body : Node) : List Node :=
  body.namedChildren.attach.flatMap fun ⟨c, _⟩ => if c.kind = .enumBodyDecls then c.elements else [c]
termination_by sizeOf body
decreasing_by
  exact Node.sizeOf_lt_of_mem_children (Node.mem_children_of_named ‹c ∈ body.namedChildren›)

theorem Node.elements_eq (body : Node) :
    body.elements = body.namedChildren.flatMap fun c =>
      if c.kind = .enumBodyDecls then c.elements else [c] := by
  rw [Node.elements]
  refine (List.flatMap_subtype fun c _ => ?_).trans (by rw [List.unattach_attach])
  rfl

theorem Node.kind_of_mem_elements {body c : Node} (h : c ∈ body.elements) :
    c.named = true ∧ c.kind ≠ .enumBodyDecls := by
  induction body using Node.size_induction with
  | step body ih =>
    rw [Node.elements_eq] at h
    obtain ⟨e,he,hc⟩ := List.mem_flatMap.mp h
    split at hc
    · exact ih e (Node.sizeOf_lt_of_mem_children (Node.mem_children_of_named he)) hc
    · rename_i hk
      obtain rfl := List.mem_singleton.mp hc
      exact ⟨(List.mem_filter.mp he).2,hk⟩

def Node.isField (n : Node) : Bool := n.kind = .fieldDecl || n.kind = .constantDecl

@[mk_iff]
structure Gathered (elements : List Node) (body : Body) : Prop where
  fields : List.Forall₂ (fun c f => fieldOf c = .ok f) (elements.filter Node.isField) body.fields
  methods : List.Forall₂ (fun c m => methodOf c = .ok m) (elements.filter (·.kind = .methodDecl))
    body.methods
  constructors : List.Forall₂ (fun c k => constructorOf c = .ok k)
    (elements.filter (·.kind = .constructorDecl)) body.constructors
  constants : List.Forall₂ (fun c name => nameOf c = name) (elements.filter (·.kind = .enumConstant))
    body.constants
  members : List.Forall₂ Declares (elements.filter Node.declaresType) body.members

section Gathering

variable {xs ys cs : List Node} {a b body : Body}

theorem forall₂_append_left_iff {α β : Type} {R : α → β → Prop} {xs ys : List α} {zs : List β} :
    List.Forall₂ R (xs ++ ys) zs ↔
      ∃ us vs, List.Forall₂ R xs us ∧ List.Forall₂ R ys vs ∧ zs = us ++ vs := by
  constructor
  · intro h
    induction xs generalizing zs with
    | nil => exact ⟨[],zs,.nil,h,rfl⟩
    | cons x xs ih =>
      cases h with
      | cons hx hrest =>
        obtain ⟨us,vs,hus,hvs,rfl⟩ := ih hrest
        exact ⟨_ :: us,vs,.cons hx hus,hvs,rfl⟩
  · rintro ⟨us,vs,hus,hvs,rfl⟩
    exact List.rel_append hus hvs

theorem gathered_nil : Gathered [] body ↔ body = {} := by
  constructor
  · rintro ⟨hf,hm,hk,hc,hd⟩
    cases body
    simp_all
  · rintro rfl
    exact ⟨.nil,.nil,.nil,.nil,.nil⟩

theorem gathered_append :
    Gathered (xs ++ ys) body ↔ ∃ a b, Gathered xs a ∧ Gathered ys b ∧ body = a.append b := by
  constructor
  · rintro ⟨hf,hm,hk,hc,hd⟩
    rw [List.filter_append,forall₂_append_left_iff] at hf hm hk hc hd
    obtain ⟨fs,fs',hf,hf',hfields⟩ := hf
    obtain ⟨ms,ms',hm,hm',hmethods⟩ := hm
    obtain ⟨ks,ks',hk,hk',hconstructors⟩ := hk
    obtain ⟨cs,cs',hc,hc',hconstants⟩ := hc
    obtain ⟨ds,ds',hd,hd',hmembers⟩ := hd
    refine ⟨⟨fs,ks,ms,cs,ds⟩,⟨fs',ks',ms',cs',ds'⟩,⟨hf,hm,hk,hc,hd⟩,⟨hf',hm',hk',hc',hd'⟩,?_⟩
    cases body
    simp_all [Body.append]
  · rintro ⟨a,b,ha,hb,rfl⟩
    constructor <;> rw [List.filter_append]
    · exact List.rel_append ha.fields hb.fields
    · exact List.rel_append ha.methods hb.methods
    · exact List.rel_append ha.constructors hb.constructors
    · exact List.rel_append ha.constants hb.constants
    · exact List.rel_append ha.members hb.members

theorem foldl_append_eq (parts : List Body) (a : Body) :
    parts.foldl Body.append a = a.append (parts.foldl Body.append {}) := by
  induction parts generalizing a with
  | nil => exact a.append_empty.symm
  | cons part parts ih => rw [List.foldl_cons,List.foldl_cons,ih,ih (Body.append {} part),
      Body.empty_append,Body.append_assoc]

theorem gathered_flatMap {inner : Node → List Node}
    (h : ∀ c ∈ cs, ∀ part, partOf c = .ok part ↔ Gathered (inner c) part) :
    Gathered (cs.flatMap inner) body ↔
      ∃ parts, List.Forall₂ (fun c part => partOf c = .ok part) cs parts ∧
        parts.foldl Body.append {} = body := by
  induction cs generalizing body with
  | nil =>
    rw [List.flatMap_nil,gathered_nil]
    simp [eq_comm]
  | cons c cs ih =>
    obtain ⟨hc,hcs⟩ := List.forall_mem_cons.mp h
    rw [List.flatMap_cons,gathered_append]
    constructor
    · rintro ⟨a,b,ha,hb,rfl⟩
      obtain ⟨parts,hparts,rfl⟩ := (ih hcs).mp hb
      refine ⟨a :: parts,.cons ((hc a).mpr ha) hparts,?_⟩
      rw [List.foldl_cons,Body.empty_append,foldl_append_eq]
    · rintro ⟨_,hparts,rfl⟩
      cases hparts with
      | @cons _ a _ parts ha hparts =>
        refine ⟨a,_,(hc a).mp ha,(ih hcs).mpr ⟨parts,hparts,rfl⟩,?_⟩
        rw [List.foldl_cons,Body.empty_append,foldl_append_eq]

end Gathering

section Elements

variable {n c : Node} {part body : Body}

theorem forall₂_filter_singleton {β : Type} {R : Node → β → Prop} {p : Node → Bool} {zs : List β} :
    List.Forall₂ R ([c].filter p) zs ↔ if p c = true then ∃ z, R c z ∧ zs = [z] else zs = [] := by
  by_cases hp : p c = true
  · rw [if_pos hp,List.filter_cons_of_pos hp,List.filter_nil,List.forall₂_cons_left_iff]
    simp
  · rw [if_neg hp,List.filter_cons_of_neg hp,List.filter_nil,List.forall₂_nil_left_iff]

theorem partOf_eq_ok_iff (h : c.kind ≠ .enumBodyDecls) :
    partOf c = .ok part ↔ Gathered [c] part := by
  obtain ⟨fields,constructors,methods,constants,members⟩ := part
  simp only [gathered_iff,forall₂_filter_singleton]
  by_cases hmember : c.kind.isMember = true
  · unfold Kind.isMember at hmember
    split at hmember <;> rename_i hk
    · rw [partOf_constant hk]
      grind [Node.isField,Node.declaresType,formOf?]
    · exact absurd hk h
    · rw [partOf_field (.inl hk),map_eq_ok]
      grind [Node.isField,Node.declaresType,formOf?]
    · rw [partOf_field (.inr hk),map_eq_ok]
      grind [Node.isField,Node.declaresType,formOf?]
    · rw [partOf_method hk,map_eq_ok]
      grind [Node.isField,Node.declaresType,formOf?]
    · rw [partOf_constructor hk,map_eq_ok]
      grind [Node.isField,Node.declaresType,formOf?]
    · cases hmember
  · cases hf : formOf? c.kind with
    | none =>
      rw [partOf_idle (by simpa using hmember) hf]
      grind [Kind.isMember,Node.isField,Node.declaresType]
    | some form =>
      rw [partOf_declaration hf,map_eq_ok]
      grind [Kind.isMember,Node.isField,Node.declaresType,Declares]

theorem bodyOf_eq_ok_iff : bodyOf n = .ok body ↔ Gathered n.elements body := by
  induction n using Node.size_induction generalizing body with
  | step n ih =>
    rw [Node.elements_eq,bodyOf_eq,map_eq_ok]
    simp only [allOk_map_eq_ok]
    refine (gathered_flatMap fun c hc part => ?_).symm
    split
    · rename_i hk
      rw [partOf_enumBody hk]
      exact ih c (Node.sizeOf_lt_of_mem_children (Node.mem_children_of_named hc))
    · rename_i hk
      exact partOf_eq_ok_iff hk

end Elements

theorem body_is_partitioned (b : Node) :
    (∀ c ∈ b.elements, c.named = true ∧ c.kind ≠ .enumBodyDecls) ∧
    (∀ body, bodyOf b = .ok body ↔ Gathered b.elements body) ∧
    ∀ form n d, n.child? .body = some b → declarationOf form n = .ok d →
      Gathered b.elements (.ofDeclaration d) := by
  refine ⟨fun _ => Node.kind_of_mem_elements,fun _ => bodyOf_eq_ok_iff,fun form n d hb hd => ?_⟩
  have hown := ownBody_of_declarationOf hd
  rw [ownBody_eq,hb] at hown
  exact bodyOf_eq_ok_iff.mp hown

section Crate

def latchNode : Node :=
  { kind := .fieldDecl
    children := [{ kind := .typeIdentifier,role := some .type,text := "Latch" },
      { kind := .variableDeclarator,role := some .declarator,children := [nameLeaf "latch"] }] }

def crateConstructor : Node := { kind := .constructorDecl,children := [nameLeaf "Crate"] }

def labelNode : Node := { kind := .recordDecl,children := [nameLeaf "Label"] }

def stackNode : Node := { kind := .methodDecl,children := [nameLeaf "stack"] }

def crateBody : Node :=
  { kind := .other "enum_body",role := some .body
    children := [{ kind := .enumConstant,children := [nameLeaf "SMALL"] },{ kind := .blockComment },
      { kind := .enumConstant,children := [nameLeaf "LARGE"] },
      { kind := .enumBodyDecls
        children := [stackNode,{ kind := .enumBodyDecls,children := [latchNode,labelNode] },
          { kind := .staticInitializer,children := [labelNode] },crateConstructor] }] }

def crateNode : Node := { kind := .enumDecl,children := [nameLeaf "Crate",crateBody] }

end Crate

theorem body_is_partitioned_crate :
    crateNode.child? .body = some crateBody ∧
    ∃ d, declarationOf .enum crateNode = .ok d ∧ Gathered crateBody.elements (.ofDeclaration d) ∧
      d.constants = ["SMALL","LARGE"] ∧ d.methods.map MethodDecl.name = ["stack"] ∧
      d.fields.map (·.type.text) = ["Latch"] ∧ d.members.map (·.name) = ["Label"] ∧
      d.constructors.map ConstructorDecl.name = ["Crate"] := by
  obtain ⟨_,_,hd⟩ := body_is_partitioned crateBody
  exact ⟨rfl,_,rfl,hd .enum crateNode _ rfl rfl,rfl,rfl,rfl,rfl,rfl⟩

end ClassDiagram.Java
