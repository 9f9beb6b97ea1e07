import ClassDiagram.Text.Blank
import ClassDiagram.Text.Quoted
import ClassDiagram.TypeRef
import ClassDiagram.Java.Tree

/-!
Nodes of types read as type references. The text of a type has no annotations, a comma and a space
between type arguments, a dot between the segments of a name, and a pair of brackets for each dimension
of an array. Everything is read from the leaves up: what a node means depends on its kind and on what
was read from its children, and, for type arguments, on what was read one level further down.
-/

namespace ClassDiagram.Java

-- A node lacks the child that would give it a meaning, or is taken for a declaration and is none.
inductive TreeError where
  | missingChild
  | noDeclaration (kind : Kind)
  deriving DecidableEq, Repr

def TreeError.message : TreeError → String
  | .missingChild => "list index out of range"
  | .noDeclaration kind => Text.quoted kind.name

abbrev Result := Except TreeError

structure Reading (α : Type) where
  node : Node
  value : Result α
  below : List (Node × Result α)

namespace Node

variable {α : Type}

mutual

def readWith (f : Node → List (Reading α) → Result α) : Node → Reading α
  | ⟨kind, named, role, text, children⟩ =>
      let inner := readAllWith f children
      ⟨⟨kind, named, role, text, children⟩, f ⟨kind, named, role, text, children⟩ inner,
        inner.map fun r => (r.node, r.value)⟩

def readAllWith (f : Node → List (Reading α) → Result α) : List Node → List (Reading α)
  | [] => []
  | n :: ns => n.readWith f :: readAllWith f ns

end

theorem readAllWith_eq_map (f : Node → List (Reading α) → Result α) (ns : List Node) :
    readAllWith f ns = ns.map (readWith f) := by
  induction ns with
  | nil => simp [readAllWith]
  | cons n ns ih => simp [readAllWith, ih]

@[simp]
theorem readWith_node (f : Node → List (Reading α) → Result α) (n : Node) :
    (n.readWith f).node = n := by
  cases n; simp [readWith]

theorem readWith_value (f : Node → List (Reading α) → Result α) (n : Node) :
    (n.readWith f).value = f n (n.children.map (readWith f)) := by
  cases n; simp [readWith, readAllWith_eq_map]

theorem readWith_below (f : Node → List (Reading α) → Result α) (n : Node) :
    (n.readWith f).below = n.children.map fun c => (c, (c.readWith f).value) := by
  cases n; simp [readWith, readAllWith_eq_map]

end Node

def allOk {α : Type} : List (Result α) → Result (List α)
  | [] => .ok []
  | r :: rs => do
      let a ← r
      let as ← allOk rs
      pure (a :: as)

def isMeaningful (n : Node) : Bool := n.named && !n.kind.isAnnot

def lastMeaning {α : Type} (children : List (Reading α)) : Result α :=
  match (children.filter fun c => isMeaningful c.node).getLast? with
  | none => .error .missingChild
  | some c => c.value

def isGenericBase (n : Node) : Bool :=
  n.named && (n.kind = .typeIdentifier || n.kind = .scopedTypeIdentifier)

def argumentValues {α : Type} (children : List (Reading α)) : List (Result α) :=
  match (children.filter fun c => c.node.named && c.node.kind = .typeArguments).getLast? with
  | none => []
  | some c => (c.below.filter fun b => isMeaningful b.1).map Prod.snd

def brackets (dimensions : Option Node) : String :=
  match dimensions with
  | none => ""
  | some n => String.join (List.replicate (n.text.toList.count '[') "[]")

-- The bounds of a wildcard, read off its children from left to right: a bound is a type after the word
-- `extends` or `super`, and the last such word is written before it.
def wildcardBounds (word : Option String) : List (Reading String) → Result String
  | [] => .ok ""
  | c :: cs =>
      match c.node.kind, word with
      | .extendsWord, _ => wildcardBounds (some "extends") cs
      | .superWord, _ => wildcardBounds (some "super") cs
      | _, none => wildcardBounds none cs
      | kind, some w =>
          if kind.isType then do
            let text ← c.value
            let rest ← wildcardBounds word cs
            pure (" " ++ w ++ " " ++ text ++ rest)
          else wildcardBounds word cs

def textFrom (n : Node) (children : List (Reading String)) : Result String :=
  match n.kind with
  | .annotatedType => lastMeaning children
  | .genericType => do
      let base ← match children.find? fun c => isGenericBase c.node with
        | none => pure ""
        | some c => c.value
      let arguments ← allOk (argumentValues children)
      pure (base ++ TypeRef.angled arguments)
  | .scopedTypeIdentifier => do
      let segments ← allOk ((children.filter fun c => isMeaningful c.node).map Reading.value)
      pure (".".intercalate segments)
  | .arrayType => do
      let element ← match children.find? fun c => c.node.role = some .element with
        | none => pure ""
        | some c => c.value
      pure (element ++ brackets (n.child? .dimensions))
  | .wildcard => do
      let bounds ← wildcardBounds none children
      pure ("?" ++ bounds)
  | _ => .ok (Text.singleSpaced n.text)

def typeText (n : Node) : Result String := (n.readWith textFrom).value

def simpleName (n : Node) : Result String :=
  if n.kind = .scopedTypeIdentifier then
    match (n.children.filter fun c => c.named && c.kind = .typeIdentifier).getLast? with
    | none => .error .missingChild
    | some c => .ok c.text
  else .ok n.text

def refFrom (n : Node) (children : List (Reading TypeRef)) : Result TypeRef :=
  match n.kind with
  | .annotatedType => lastMeaning children
  | .typeIdentifier | .scopedTypeIdentifier => do
      let text ← typeText n
      let base ← simpleName n
      pure { text, baseName := some base }
  | .genericType => do
      let text ← typeText n
      let base ← match n.children.find? isGenericBase with
        | none => pure none
        | some c => (simpleName c).map some
      let arguments ← allOk (argumentValues children)
      pure { text, baseName := base, arguments := TypeRef.argumentList arguments }
  | _ => (typeText n).map TypeRef.ofText

def typeRef (n : Node) : Result TypeRef := (n.readWith refFrom).value

def elementFrom (n : Node) (children : List (Reading (Option Node))) : Result (Option Node) :=
  match n.kind with
  | .annotatedType => lastMeaning children
  | .arrayType =>
      match children.find? fun c => c.node.role = some .element with
      | none => .ok none
      | some c => c.value
  | _ => .ok (some n)

-- The type that an array is made of in the end: annotations and array types are gone through. An array
-- without an element has none.
def elementNode (n : Node) : Result (Option Node) := (n.readWith elementFrom).value

def typeText? : Option Node → Result String
  | none => .ok ""
  | some n => typeText n

def typeRef? : Option Node → Result TypeRef
  | none => .ok TypeRef.blank
  | some n => typeRef n

def elementRef? : Option Node → Result TypeRef
  | none => .ok TypeRef.blank
  | some n => elementNode n >>= typeRef?

end ClassDiagram.Java
