import ClassDiagram.Vocabulary
import ClassDiagram.TypeRef

/-!
Declarations of a source file: its package, its imports and the types it declares, with their members
and the types nested in them.
-/

namespace ClassDiagram

structure Declarator where
  name : String
  type : String
  deriving DecidableEq, Repr

structure FieldDecl where
  modifiers : List String
  type : TypeRef
  declarators : List Declarator
  deriving Repr

structure Parameter where
  modifiers : List String
  type : TypeRef
  name : String
  deriving Repr

structure MethodDecl where
  modifiers : List String
  returnType : TypeRef
  name : String
  parameters : List Parameter
  deriving Repr

structure ConstructorDecl where
  modifiers : List String
  name : String
  parameters : List Parameter
  deriving Repr

structure Header where
  form : Form
  name : String
  modifiers : List String := []
  typeParameters : List String := []
  implemented : List TypeRef := []
  extended : List TypeRef := []
  fields : List FieldDecl := []
  constructors : List ConstructorDecl := []
  methods : List MethodDecl := []
  constants : List String := []
  components : List Parameter := []
  deriving Repr

def Header.displayName (h : Header) : String :=
  if h.typeParameters.isEmpty then h.name else h.name ++ TypeRef.angled h.typeParameters

def Header.kind (h : Header) : EntityKind :=
  match h.form with
  | .interface => .interface
  | .enum => .enum
  | .record => .record
  | .cls => if h.modifiers.contains "abstract" then .abstractCls else .cls

structure Declaration extends Header where
  members : List Declaration := []
  deriving Repr

structure Import where
  name : String
  qualifiedName : String
  isStatic : Bool := false
  isWildcard : Bool := false
  deriving DecidableEq, Repr

structure SourceUnit where
  path : Option String := none
  package : String := ""
  imports : List Import := []
  types : List Declaration := []
  deriving Repr

namespace Declaration

mutual

def size : Declaration → Nat
  | ⟨_, members⟩ => sizes members + 1

def sizes : List Declaration → Nat
  | [] => 0
  | d :: ds => d.size + sizes ds

end

theorem sizes_append (xs ys : List Declaration) : sizes (xs ++ ys) = sizes xs + sizes ys := by
  induction xs with
  | nil => simp [sizes]
  | cons x xs ih => simp [sizes, ih, Nat.add_assoc]

-- The declarations reached from a worklist, which is read from the front: each declaration comes before
-- the types nested in it, and these before its later siblings.
def walkFrom : List Declaration → List Declaration
  | [] => []
  | d :: rest => d :: walkFrom (d.members ++ rest)
termination_by pending => sizes pending
decreasing_by
  cases d
  simp [sizes_append, sizes, size]

end Declaration

def SourceUnit.walk (u : SourceUnit) : List Declaration := Declaration.walkFrom u.types

end ClassDiagram
