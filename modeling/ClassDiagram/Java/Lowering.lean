import ClassDiagram.Declaration
import ClassDiagram.Text.Split
import ClassDiagram.Java.TypeNode

/-!
Concrete trees read as declarations. Only the nodes of declarations, of their headers and of their
members are looked at: the bodies of methods, initialisers and the arguments of constants are not.
-/

namespace ClassDiagram.Java

def typesFrom (_ : Node) (children : List (Reading (List TypeRef))) : Result (List TypeRef) := do
  let found ← allOk ((children.filter fun c => c.node.named).map fun c =>
    if c.node.kind = .typeList then c.value
    else if c.node.kind.isType then (typeRef c.node).map fun t => [t]
    else .ok [])
  pure found.flatten

def typesListed (n : Node) : Result (List TypeRef) := (n.readWith typesFrom).value

def modifiersOf (n : Node) : List String :=
  match n.children.find? (·.kind = .modifiers) with
  | none => []
  | some m => (m.children.filter fun c => !c.kind.isAnnot).map Node.text

def nameOf (n : Node) : String :=
  match n.child? .name with
  | none => ""
  | some c => c.text

-- A parameter, if the node is one. Dimensions after its name are part of its type; a parameter for any
-- number of values has the type of one of them.
def parameterOf (n : Node) : Result (Option Parameter) :=
  match n.kind with
  | .formalParameter => do
      let dims := brackets (n.child? .dimensions)
      let type ←
        if dims = "" then typeRef? (n.child? .type)
        else (typeText? (n.child? .type)).map fun text => TypeRef.ofText (text ++ dims)
      pure (some ⟨modifiersOf n, type, nameOf n⟩)
  | .spreadParameter => do
      let type ← typeRef? (n.namedChildren.find? (·.kind.isType))
      let name := match n.namedChildren.find? (·.kind = .variableDeclarator) with
        | none => ""
        | some d => nameOf d
      pure (some ⟨modifiersOf n, type, name⟩)
  | _ => .ok none

def parametersOf : Option Node → Result (List Parameter)
  | none => .ok []
  | some n => do
      let found ← allOk (n.namedChildren.map parameterOf)
      pure (found.filterMap id)

def fieldOf (n : Node) : Result FieldDecl := do
  let text ← typeText? (n.child? .type)
  let type ← elementRef? (n.child? .type)
  let declarators := (n.childrenIn .declarator).map fun d =>
    { name := nameOf d, type := text ++ brackets (d.child? .dimensions) : Declarator }
  pure ⟨modifiersOf n, type, declarators⟩

def methodOf (n : Node) : Result MethodDecl := do
  let returnType ← typeRef? (n.child? .type)
  let parameters ← parametersOf (n.child? .parameters)
  pure ⟨modifiersOf n, returnType, nameOf n, parameters⟩

def constructorOf (n : Node) : Result ConstructorDecl := do
  let parameters ← parametersOf (n.child? .parameters)
  pure ⟨modifiersOf n, nameOf n, parameters⟩

def typeParametersOf (n : Node) : List String :=
  match n.child? .typeParameters with
  | none => []
  | some list =>
      (list.namedChildren.filter (·.kind = .typeParameter)).filterMap fun p =>
        (p.namedChildren.find? fun c => c.kind = .typeIdentifier || c.kind = .identifier).map Node.text

def formOf? : Kind → Option Form
  | .classDecl => some .cls
  | .interfaceDecl => some .interface
  | .enumDecl => some .enum
  | .recordDecl => some .record
  | _ => none

def Node.declaresType (n : Node) : Bool := (formOf? n.kind).isSome

-- Asked only for nodes that are known to declare a type.
def formOf (n : Node) : Result Form :=
  match formOf? n.kind with
  | none => .error (.noDeclaration n.kind)
  | some form => .ok form

structure Body where
  fields : List FieldDecl := []
  constructors : List ConstructorDecl := []
  methods : List MethodDecl := []
  constants : List String := []
  members : List Declaration := []

def Body.append (a b : Body) : Body :=
  { fields := a.fields ++ b.fields
    constructors := a.constructors ++ b.constructors
    methods := a.methods ++ b.methods
    constants := a.constants ++ b.constants
    members := a.members ++ b.members }

def componentsOf (form : Form) (n : Node) : Result (List Parameter) :=
  if form = .record then do
    let lists ← allOk ((n.children.filter (·.kind = .formalParameters)).map fun c => parametersOf (some c))
    pure (lists.getLast?.getD [])
  else .ok []

def declarationFrom (form : Form) (n : Node) (bodies : List (Node × Result Body)) :
    Result Declaration := do
  let extended ← allOk ((n.children.filter fun c =>
    c.kind = .superclass || c.kind = .extendsInterfaces).map typesListed)
  let implemented ← allOk ((n.children.filter (·.kind = .superInterfaces)).map typesListed)
  let components ← componentsOf form n
  let body : Body ← match bodies.find? fun b => b.1.role = some .body with
    | none => pure {}
    | some b => b.2
  pure
    { form, name := nameOf n, modifiers := modifiersOf n, typeParameters := typeParametersOf n,
      implemented := implemented.flatten, extended := extended.flatten, components,
      fields := body.fields, constructors := body.constructors, methods := body.methods,
      constants := body.constants, members := body.members }

def typeFrom (n : Node) (bodies : List (Node × Result Body)) : Result Declaration := do
  let form ← formOf n
  declarationFrom form n bodies

def bodyPart (c : Reading Body) : Result Body :=
  match c.node.kind with
  | .enumConstant => .ok { constants := [nameOf c.node] }
  | .enumBodyDecls => c.value
  | .fieldDecl | .constantDecl => (fieldOf c.node).map fun f => { fields := [f] }
  | .methodDecl => (methodOf c.node).map fun m => { methods := [m] }
  | .constructorDecl => (constructorOf c.node).map fun k => { constructors := [k] }
  | _ =>
      if c.node.declaresType then (typeFrom c.node c.below).map fun d => { members := [d] }
      else .ok {}

def bodyFrom (_ : Node) (children : List (Reading Body)) : Result Body := do
  let parts ← allOk ((children.filter fun c => c.node.named).map bodyPart)
  pure (parts.foldl Body.append {})

def declarationOf (form : Form) (n : Node) : Result Declaration :=
  declarationFrom form n (n.readWith bodyFrom).below

def typeOf (n : Node) : Result Declaration := typeFrom n (n.readWith bodyFrom).below

def nameNode? (n : Node) : Option Node := n.namedChildren.find? (·.kind.isName)

def importOf? (n : Node) : Option Import :=
  (nameNode? n).map fun name =>
    let isWildcard := n.children.any (·.kind = .asterisk)
    { name := if isWildcard then "" else Text.lastSegment name.text
      qualifiedName := name.text
      isStatic := n.children.any (·.kind = .staticWord)
      isWildcard }

def unitOf (path : String) (root : Node) : Result SourceUnit := do
  let parts := root.namedChildren
  let types ← allOk ((parts.filter Node.declaresType).map typeOf)
  let packages := (parts.filter (·.kind = .packageDecl)).filterMap nameNode?
  pure
    { path := some path
      package := (packages.getLast?.map Node.text).getD ""
      imports := (parts.filter (·.kind = .importDecl)).filterMap importOf?
      types }

end ClassDiagram.Java
