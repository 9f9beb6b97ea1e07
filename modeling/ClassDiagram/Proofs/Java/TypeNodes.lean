import ClassDiagram.Proofs.Java.DeclarationNodes
import ClassDiagram.Proofs.Java.TypeReading

/-!
The nodes of a tree that are read as types: those of the supertypes and components of its declarations,
and those of their fields, methods and constructors. Nothing else in a tree is read as a type, so the code
in the bodies of methods, in initialisers and in the arguments of constants does not count.
-/

namespace ClassDiagram.Java

namespace Node

def parameterTypes (n : Node) : List Node :=
  match n.kind with
  | .formalParameter => (n.child? .type).toList
  | .spreadParameter => (n.namedChildren.find? (·.kind.isType)).toList
  | _ => []

def listedParameterTypes (list : Node) : List Node := list.namedChildren.flatMap parameterTypes

def memberTypes (n : Node) : List Node :=
  match n.kind with
  | .fieldDecl | .constantDecl => (n.child? .type).toList
  | .methodDecl =>
      (n.child? .type).toList ++ (n.child? .parameters).toList.flatMap listedParameterTypes
  | .constructorDecl => (n.child? .parameters).toList.flatMap listedParameterTypes
  | _ => []

def listsSupertypes (n : Node) : Bool :=
  n.kind = .superclass || n.kind = .extendsInterfaces || n.kind = .superInterfaces

def componentLists (n : Node) : List Node := n.children.filter (·.kind = .formalParameters)

def headerTypes (n : Node) : List Node :=
  (n.children.filter listsSupertypes).flatMap listedTypes ++
    if n.kind = .recordDecl then n.componentLists.flatMap listedParameterTypes else []

def typesWithin (body : Node) : List Node :=
  body.namedChildren.attach.flatMap fun ⟨c, _⟩ =>
    if c.kind = .enumBodyDecls then c.typesWithin
    else if c.declaresType then
      c.headerTypes ++ match _hb : c.child? .body with
        | none => []
        | some b => b.typesWithin
    else c.memberTypes
termination_by sizeOf body
decreasing_by
  all_goals
    have hlt := sizeOf_lt_of_mem_children (mem_children_of_named ‹c ∈ body.namedChildren›)
  · exact hlt
  · exact Nat.lt_trans (sizeOf_lt_of_mem_children (mem_children_of_role _hb)) hlt

def declaredTypes (n : Node) : List Node :=
  n.headerTypes ++ match n.child? .body with
    | none => []
    | some b => b.typesWithin

theorem typesWithin_eq (body : Node) :
    body.typesWithin = body.namedChildren.flatMap fun c =>
      if c.kind = .enumBodyDecls then c.typesWithin
      else if c.declaresType then c.declaredTypes
      else c.memberTypes := by
  rw [typesWithin]
  refine (List.flatMap_subtype fun c _ => ?_).trans (by rw [List.unattach_attach])
  simp only [declaredTypes]
  split
  · rfl
  · split
    · refine congrArg (c.headerTypes ++ ·) ?_
      split <;> split <;> simp_all
    · rfl

end Node

def typeNodes (root : Node) : List Node :=
  (root.namedChildren.filter Node.declaresType).flatMap Node.declaredTypes

end ClassDiagram.Java
