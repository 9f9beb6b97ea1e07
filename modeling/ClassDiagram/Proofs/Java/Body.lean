import ClassDiagram.Java.Lowering
import ClassDiagram.Proofs.Declaration.Placement
import ClassDiagram.Proofs.Outcome
import Mathlib.Data.List.Forall2

/-!
Bodies of type declarations, read without the readings of other nodes: a body is read part by part from
its named children, and a declaration from the first of its children in the role of a body.
-/

namespace ClassDiagram.Java

section

variable {α β : Type}

theorem allOk_eq_ok {rs : List (Result α)} {as : List α} :
    allOk rs = .ok as ↔ List.Forall₂ (fun r a => r = .ok a) rs as := by
  induction rs generalizing as with
  | nil => cases as <;> simp [allOk]
  | cons r rs ih =>
    simp only [allOk,bind_eq_ok,pure_eq_ok,ih]
    constructor
    · rintro ⟨a,ha,as',has,rfl⟩
      exact .cons ha has
    · intro h
      cases h with
      | cons ha has => exact ⟨_,ha,_,has,rfl⟩

theorem allOk_map_eq_ok {f : α → Result β} {xs : List α} {bs : List β} :
    allOk (xs.map f) = .ok bs ↔ List.Forall₂ (fun x b => f x = .ok b) xs bs := by
  rw [allOk_eq_ok,List.forall₂_map_left_iff]

theorem map_eq_of_forall₂ {f : α → β} {xs ys : List α}
    (h : List.Forall₂ (fun x y => f y = f x) xs ys) : ys.map f = xs.map f := by
  induction h with
  | nil => rfl
  | cons hxy _ ih => rw [List.map_cons,List.map_cons,hxy,ih]

theorem filterMap_eq_of_forall₂ {f : α → Option β} {xs ys : List α}
    (h : List.Forall₂ (fun x y => f y = f x) xs ys) : ys.filterMap f = xs.filterMap f := by
  rw [← Function.id_comp f,← List.filterMap_map,← List.filterMap_map,map_eq_of_forall₂ h]

end

namespace Node

theorem mem_children_of_named {n c : Node} (h : c ∈ n.namedChildren) : c ∈ n.children :=
  (List.mem_filter.mp h).1

theorem mem_children_of_role {n c : Node} {role : Role} (h : n.child? role = some c) :
    c ∈ n.children :=
  List.mem_of_find?_eq_some h

theorem sizeOf_lt_of_mem_children {n c : Node} (h : c ∈ n.children) : sizeOf c < sizeOf n := by
  cases n with
  | mk kind named role text children =>
    have hc : sizeOf c < sizeOf children := List.sizeOf_lt_of_mem h
    simp only [Node.mk.sizeOf_spec]
    omega

end Node

def bodyOf (n : Node) : Result Body := (n.readWith bodyFrom).value

def partOf (c : Node) : Result Body := bodyPart (c.readWith bodyFrom)

def ownBody (n : Node) : Result Body :=
  match n.child? .body with
  | none => .ok {}
  | some b => bodyOf b

def bodyOf? : Option Node → Result Body
  | none => .ok {}
  | some b => bodyOf b

theorem ownBody_eq (n : Node) : ownBody n = bodyOf? (n.child? .body) := rfl

theorem bodyOf_eq (n : Node) :
    bodyOf n = (allOk (n.namedChildren.map partOf)).map fun parts => parts.foldl Body.append {} := by
  rw [bodyOf,Node.readWith_value,bodyFrom,List.filter_map,List.map_map]
  simp only [Function.comp_def,Node.readWith_node]
  rfl

theorem find_below (n : Node) :
    (n.readWith bodyFrom).below.find? (fun b => b.1.role = some .body) =
      (n.child? .body).map fun b => (b,bodyOf b) := by
  rw [Node.readWith_below,List.find?_map]
  rfl

theorem declarationOf_eq (form : Form) (n : Node) :
    declarationOf form n = (do
      let extended ← allOk ((n.children.filter fun c =>
        c.kind = .superclass || c.kind = .extendsInterfaces).map typesListed)
      let implemented ← allOk ((n.children.filter (·.kind = .superInterfaces)).map typesListed)
      let components ← componentsOf form n
      let body ← ownBody n
      pure
        { form,name := nameOf n,modifiers := modifiersOf n,typeParameters := typeParametersOf n
          implemented := implemented.flatten,extended := extended.flatten,components
          fields := body.fields,constructors := body.constructors,methods := body.methods
          constants := body.constants,members := body.members }) := by
  rw [declarationOf,declarationFrom,find_below,ownBody]
  cases n.child? .body <;> rfl

def Body.ofDeclaration (d : Declaration) : Body :=
  { fields := d.fields,constructors := d.constructors,methods := d.methods
    constants := d.constants,members := d.members }

theorem ownBody_of_declarationOf {form : Form} {n : Node} {d : Declaration}
    (h : declarationOf form n = .ok d) : ownBody n = .ok (.ofDeclaration d) := by
  rw [declarationOf_eq] at h
  simp only [bind_eq_ok,pure_eq_ok] at h
  obtain ⟨_,_,_,_,_,_,body,hbody,rfl⟩ := h
  exact hbody

theorem declarationOf_members {form : Form} {n : Node} {d : Declaration}
    (h : declarationOf form n = .ok d) :
    ∃ body, ownBody n = .ok body ∧ d.members = body.members :=
  ⟨_,ownBody_of_declarationOf h,rfl⟩

theorem Body.append_assoc (a b c : Body) : (a.append b).append c = a.append (b.append c) := by
  simp [Body.append]

theorem Body.append_empty (b : Body) : b.append {} = b := by
  simp [Body.append]

theorem Body.empty_append (b : Body) : Body.append {} b = b := by
  simp [Body.append]

theorem foldl_append_members (parts : List Body) (b : Body) :
    (parts.foldl Body.append b).members = b.members ++ parts.flatMap Body.members := by
  induction parts generalizing b with
  | nil => simp
  | cons p parts ih => simp [ih,Body.append]

theorem bodyOf_eq_ok {n : Node} {body : Body} (h : bodyOf n = .ok body) :
    ∃ parts, List.Forall₂ (fun c part => partOf c = .ok part) n.namedChildren parts ∧
      body.members = parts.flatMap Body.members := by
  rw [bodyOf_eq,map_eq_ok] at h
  obtain ⟨parts,hparts,rfl⟩ := h
  refine ⟨parts,allOk_map_eq_ok.mp hparts,?_⟩
  rw [foldl_append_members]
  rfl

theorem typeFrom_eq {n : Node} {form : Form} (h : formOf? n.kind = some form)
    (bodies : List (Node × Result Body)) : typeFrom n bodies = declarationFrom form n bodies := by
  rw [typeFrom,formOf,h]
  rfl

theorem typeOf_eq {n : Node} {form : Form} (h : formOf? n.kind = some form) :
    typeOf n = declarationOf form n :=
  typeFrom_eq h _

theorem partOf_constant {n : Node} (hk : n.kind = .enumConstant) :
    partOf n = .ok { constants := [nameOf n] } := by
  rw [partOf,bodyPart,Node.readWith_node,hk]

def Kind.isMember : Kind → Bool
  | .enumConstant | .enumBodyDecls | .fieldDecl | .constantDecl | .methodDecl | .constructorDecl => true
  | _ => false

theorem partOf_idle {n : Node} (hk : n.kind.isMember = false) (hf : formOf? n.kind = none) :
    partOf n = .ok {} := by
  have hn : n.declaresType = false := by simp [Node.declaresType,hf]
  rw [partOf,bodyPart,Node.readWith_node,hn]
  split <;> simp_all [Kind.isMember]

theorem partOf_enumBody {c : Node} (h : c.kind = .enumBodyDecls) : partOf c = bodyOf c := by
  simp [partOf,bodyPart,h,bodyOf]

theorem partOf_field {n : Node} (hk : n.kind = .fieldDecl ∨ n.kind = .constantDecl) :
    partOf n = (fieldOf n).map fun d => { fields := [d] } := by
  rw [partOf,bodyPart,Node.readWith_node]
  rcases hk with hk | hk <;> rw [hk]

theorem partOf_method {n : Node} (hk : n.kind = .methodDecl) :
    partOf n = (methodOf n).map fun d => { methods := [d] } := by
  rw [partOf,bodyPart,Node.readWith_node,hk]

theorem partOf_constructor {n : Node} (hk : n.kind = .constructorDecl) :
    partOf n = (constructorOf n).map fun d => { constructors := [d] } := by
  rw [partOf,bodyPart,Node.readWith_node,hk]

theorem partOf_declaration {c : Node} {form : Form} (h : formOf? c.kind = some form) :
    partOf c = (declarationOf form c).map fun d => { members := [d] } := by
  have hn : c.declaresType = true := by simp [Node.declaresType,h]
  have htype : typeFrom c (c.readWith bodyFrom).below = declarationOf form c := typeFrom_eq h _
  rw [partOf,bodyPart,Node.readWith_node,hn,htype]
  unfold formOf? at h
  split at h <;> simp_all

theorem partOf_members_eq_nil {c : Node} {part : Body} (h : partOf c = .ok part)
    (hb : c.kind ≠ .enumBodyDecls) (hf : formOf? c.kind = none) : part.members = [] := by
  rw [partOf,bodyPart,Node.readWith_node] at h
  split at h
  · cases h
    rfl
  · rename_i hk
    exact absurd hk hb
  · obtain ⟨_,_,rfl⟩ := map_eq_ok.mp h
    rfl
  · obtain ⟨_,_,rfl⟩ := map_eq_ok.mp h
    rfl
  · obtain ⟨_,_,rfl⟩ := map_eq_ok.mp h
    rfl
  · obtain ⟨_,_,rfl⟩ := map_eq_ok.mp h
    rfl
  · rw [if_neg (by simp [Node.declaresType,hf])] at h
    cases h
    rfl

theorem typesOf_eq (ns : List Node) :
    (ns.filter Node.declaresType).map typeOf =
      ns.filterMap fun n => (formOf? n.kind).map fun form => declarationOf form n := by
  induction ns with
  | nil => rfl
  | cons n ns ih =>
    cases hf : formOf? n.kind with
    | none =>
      rw [List.filter_cons_of_neg (by simp [Node.declaresType,hf]),List.filterMap_cons,hf,ih]
      rfl
    | some form =>
      rw [List.filter_cons_of_pos (by simp [Node.declaresType,hf]),List.map_cons,typeOf_eq hf,
        List.filterMap_cons,hf,ih]
      rfl

def packageOf (root : Node) : String :=
  (((root.namedChildren.filter (·.kind = .packageDecl)).filterMap nameNode?).getLast?.map
    Node.text).getD ""

def importsOf (root : Node) : List Import :=
  (root.namedChildren.filter (·.kind = .importDecl)).filterMap importOf?

theorem unitOf_eq (path : String) (root : Node) :
    unitOf path root = (do
      let types ← allOk (root.namedChildren.filterMap fun n =>
        (formOf? n.kind).map fun form => declarationOf form n)
      pure { path := some path,package := packageOf root,imports := importsOf root,types }) := by
  rw [unitOf,typesOf_eq]
  rfl

end ClassDiagram.Java
