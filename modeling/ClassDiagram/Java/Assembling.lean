import ClassDiagram.Assembly
import ClassDiagram.Java.Lowering

/-!
Concrete trees put together as assemblies. A declaration is made when its node is come to, filled in as the
children of the node are gone through in order, and attached to what it stands in once it is complete, with
all the types nested in it.
-/

namespace ClassDiagram.Java

-- What a node, taken as the body of a declaration, does to an assembly that holds the declaration.
abbrev Filling := Nat → Assembly → Result Assembly

def headerPart (form : Form) (c : Node) : Result (Header → Header) :=
  match c.kind with
  | .superclass | .extendsInterfaces =>
      (typesListed c).map fun ts h => { h with extended := h.extended ++ ts }
  | .superInterfaces => (typesListed c).map fun ts h => { h with implemented := h.implemented ++ ts }
  | .formalParameters =>
      if form = .record then (parametersOf (some c)).map fun ps h => { h with components := ps }
      else .ok id
  | _ => .ok id

def fillHeader (form : Form) (d : Nat) (a : Assembly) (c : Node) : Result Assembly :=
  (headerPart form c).map (a.fill d)

def declareFrom (n : Node) (bodies : List (Node × Result Filling)) (a : Assembly) :
    Result (Nat × Assembly) := do
  let form ← formOf n
  let d := a.declarations.length
  let header : Header :=
    { form, name := nameOf n, modifiers := modifiersOf n, typeParameters := typeParametersOf n }
  let headed ← n.children.foldlM (fillHeader form d) (a.addHeader header)
  match bodies.find? fun b => b.1.role = some .body with
  | none => pure (d, headed)
  | some b =>
      let filling ← b.2
      let filled ← filling d headed
      pure (d, filled)

def fillPart (d : Nat) (a : Assembly) (c : Reading Filling) : Result Assembly :=
  match c.node.kind with
  | .enumConstant => .ok (a.fill d fun h => { h with constants := h.constants ++ [nameOf c.node] })
  | .enumBodyDecls => do
      let filling ← c.value
      filling d a
  | .fieldDecl | .constantDecl =>
      (fieldOf c.node).map fun f => a.fill d fun h => { h with fields := h.fields ++ [f] }
  | .methodDecl =>
      (methodOf c.node).map fun m => a.fill d fun h => { h with methods := h.methods ++ [m] }
  | .constructorDecl =>
      (constructorOf c.node).map fun k => a.fill d fun h =>
        { h with constructors := h.constructors ++ [k] }
  | _ =>
      if c.node.declaresType then do
        let (member, b) ← declareFrom c.node c.below a
        pure (b.attachMember d member)
      else .ok a

def fillFrom (_ : Node) (children : List (Reading Filling)) : Result Filling :=
  .ok fun d a => (children.filter fun c => c.node.named).foldlM (fillPart d) a

def declare (n : Node) (a : Assembly) : Result (Nat × Assembly) :=
  declareFrom n (n.readWith fillFrom).below a

def unitPart (a : Assembly) (n : Node) : Result Assembly :=
  match n.kind with
  | .packageDecl =>
      match nameNode? n with
      | none => .ok a
      | some name => .ok (a.setPackage 0 name.text)
  | .importDecl =>
      match importOf? n with
      | none => .ok a
      | some i => .ok (a.addImport 0 i)
  | _ =>
      if n.declaresType then do
        let (d, b) ← declare n a
        pure (b.attachType 0 d)
      else .ok a

def assemblyOf (root : Node) : Result Assembly :=
  root.namedChildren.foldlM unitPart (Assembly.addUnit {} "" [])

end ClassDiagram.Java
