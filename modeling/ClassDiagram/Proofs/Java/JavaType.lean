import ClassDiagram.Java.Grammar
import ClassDiagram.Java.TypeNode

/-!
Java types as they are meant, apart from how they are written. The rank of an array is kept with its element,
so that no array is made of arrays. Every type has one printed form, and one reference that it stands for.
-/

namespace ClassDiagram.Java

inductive Primitive where
  | byte
  | short
  | int
  | long
  | char
  | float
  | double
  | boolean
  | void
  deriving DecidableEq, Repr

namespace Primitive

def word : Primitive → String
  | .byte => "byte"
  | .short => "short"
  | .int => "int"
  | .long => "long"
  | .char => "char"
  | .float => "float"
  | .double => "double"
  | .boolean => "boolean"
  | .void => "void"

def kind : Primitive → Kind
  | .byte | .short | .int | .long | .char => .integralType
  | .float | .double => .floatingPointType
  | .boolean => .booleanType
  | .void => .voidType

end Primitive

-- A word of the source is an identifier here also when it is a keyword, unless it is a primitive type.
def isIdentifier (text : String) : Bool :=
  text.toList.head?.any Token.isWordStart &&
    text.toList.all (fun c => Token.isWordPart c && !Text.isBlank c) &&
    (Grammar.primitiveKind? text).isNone

inductive Bound where
  | upper
  | lower
  deriving DecidableEq, Repr

def Bound.word : Bound → String
  | .upper => "extends"
  | .lower => "super"

structure Identifier where
  text : String
  valid : isIdentifier text = true
  deriving DecidableEq, Repr

namespace Identifier

theorem eq_of_text {name other : Identifier} (h : name.text = other.text) : name = other := by
  cases name
  cases other
  cases h
  rfl

theorem text_ne_nil (name : Identifier) : name.text.toList ≠ [] := by
  have hvalid := name.valid
  rw [isIdentifier] at hvalid
  intro hnil
  simp [hnil] at hvalid

theorem chars (name : Identifier) :
    ∀ c ∈ name.text.toList, Token.isWordPart c = true ∧ Text.isBlank c = false := by
  have hvalid := name.valid
  simp only [isIdentifier,Bool.and_eq_true,List.all_eq_true] at hvalid
  intro c hc
  simpa using hvalid.1.2 c hc

theorem not_primitive (name : Identifier) : Grammar.primitiveKind? name.text = none := by
  have hvalid := name.valid
  simp only [isIdentifier,Bool.and_eq_true] at hvalid
  simpa using hvalid.2

end Identifier

mutual

inductive JavaType where
  | primitive (p : Primitive) (rank : Nat)
  | named (c : ClassType) (rank : Nat)

inductive ClassType where
  | simple (name : Identifier) (arguments : List TypeArgument)
  | inner (outer : ClassType) (name : Identifier) (arguments : List TypeArgument)

inductive TypeArgument where
  | type (t : JavaType)
  | unbounded
  | bounded (bound : Bound) (t : JavaType)

end

def pairsOfBrackets (rank : Nat) : String := String.join (List.replicate rank "[]")

theorem pairsOfBrackets_add (m n : Nat) :
    pairsOfBrackets (m + n) = pairsOfBrackets m ++ pairsOfBrackets n := by
  rw [pairsOfBrackets,← List.replicate_append_replicate,String.join_append]
  rfl

def inAngles : List String → String
  | [] => ""
  | texts => "<" ++ ", ".intercalate texts ++ ">"

mutual

def JavaType.print : JavaType → String
  | .primitive p rank => p.word ++ pairsOfBrackets rank
  | .named c rank => c.print ++ pairsOfBrackets rank

def ClassType.print : ClassType → String
  | .simple name arguments => name.text ++ inAngles (TypeArgument.printAll arguments)
  | .inner outer name arguments =>
      outer.print ++ "." ++ name.text ++ inAngles (TypeArgument.printAll arguments)

def TypeArgument.print : TypeArgument → String
  | .type t => t.print
  | .unbounded => "?"
  | .bounded bound t => "? " ++ bound.word ++ " " ++ t.print

def TypeArgument.printAll : List TypeArgument → List String
  | [] => []
  | a :: rest => a.print :: TypeArgument.printAll rest

end

mutual

def JavaType.reference : JavaType → TypeRef
  | .primitive p rank => { text := (JavaType.primitive p rank).print }
  | .named c 0 => c.reference
  | .named c (rank + 1) => { text := (JavaType.named c (rank + 1)).print }

def ClassType.reference : ClassType → TypeRef
  | .simple name arguments =>
      { text := (ClassType.simple name arguments).print
        baseName := name.text
        arguments := TypeRef.argumentList (TypeArgument.references arguments) }
  | .inner outer name arguments =>
      { text := (ClassType.inner outer name arguments).print
        baseName := name.text
        arguments := TypeRef.argumentList (TypeArgument.references arguments) }

def TypeArgument.reference : TypeArgument → TypeRef
  | .type t => t.reference
  | .unbounded => { text := TypeArgument.unbounded.print }
  | .bounded bound t => { text := (TypeArgument.bounded bound t).print }

def TypeArgument.references : List TypeArgument → List TypeRef
  | [] => []
  | a :: rest => a.reference :: TypeArgument.references rest

end

namespace TypeArgument

theorem printAll_eq_map (arguments : List TypeArgument) :
    printAll arguments = arguments.map print := by
  induction arguments with
  | nil => rfl
  | cons a rest ih => rw [printAll,ih,List.map_cons]

theorem references_eq_map (arguments : List TypeArgument) :
    references arguments = arguments.map reference := by
  induction arguments with
  | nil => rfl
  | cons a rest ih => rw [references,ih,List.map_cons]

end TypeArgument

namespace ClassType

def name : ClassType → Identifier
  | .simple name _ => name
  | .inner _ name _ => name

def arguments : ClassType → List TypeArgument
  | .simple _ arguments => arguments
  | .inner _ _ arguments => arguments

def withArguments (arguments : List TypeArgument) : ClassType → ClassType
  | .simple name _ => .simple name arguments
  | .inner outer name _ => .inner outer name arguments

@[simp]
theorem name_withArguments (arguments : List TypeArgument) (c : ClassType) :
    (c.withArguments arguments).name = c.name := by
  cases c <;> rfl

@[simp]
theorem arguments_withArguments (arguments : List TypeArgument) (c : ClassType) :
    (c.withArguments arguments).arguments = arguments := by
  cases c <;> rfl

theorem reference_eq (c : ClassType) :
    c.reference =
      { text := c.print
        baseName := c.name.text
        arguments := TypeRef.argumentList (c.arguments.map TypeArgument.reference) } := by
  cases c <;> simp only [reference,name,arguments,TypeArgument.references_eq_map]

theorem print_withArguments {c : ClassType} (hc : c.arguments = []) {arguments : List TypeArgument}
    (h : arguments ≠ []) :
    (c.withArguments arguments).print =
      c.print ++ TypeRef.angled (arguments.map TypeArgument.print) := by
  obtain ⟨a,rest,rfl⟩ := List.exists_cons_of_ne_nil h
  cases c with
  | simple name before =>
    cases hc
    simp [withArguments,print,TypeArgument.printAll_eq_map,inAngles,TypeRef.angled]
  | inner outer name before =>
    cases hc
    simp [withArguments,print,TypeArgument.printAll_eq_map,inAngles,TypeRef.angled,String.append_assoc]

end ClassType

namespace JavaType

def arrayOf (more : Nat) : JavaType → JavaType
  | .primitive p rank => .primitive p (rank + more)
  | .named c rank => .named c (rank + more)

theorem print_arrayOf (more : Nat) (t : JavaType) :
    (t.arrayOf more).print = t.print ++ pairsOfBrackets more := by
  cases t <;> simp only [arrayOf,print,pairsOfBrackets_add,String.append_assoc]

theorem reference_text (t : JavaType) : t.reference.text = t.print := by
  cases t with
  | primitive p rank => rfl
  | named c rank =>
    cases rank with
    | zero => simp [reference,print,ClassType.reference_eq,pairsOfBrackets]
    | succ rank => rfl

theorem reference_arrayOf {more : Nat} (h : 0 < more) (t : JavaType) :
    (t.arrayOf more).reference = TypeRef.ofText (t.print ++ pairsOfBrackets more) := by
  obtain ⟨more,rfl⟩ := Nat.exists_eq_add_of_lt h
  rw [← print_arrayOf,← reference_text]
  cases t <;> rfl

end JavaType

theorem TypeArgument.reference_text (a : TypeArgument) : a.reference.text = a.print := by
  cases a with
  | type t => exact t.reference_text
  | unbounded => rfl
  | bounded bound t => rfl

end ClassDiagram.Java
