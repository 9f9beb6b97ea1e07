import ClassDiagram.Text.Quoted

/-!
Closed vocabularies: the visibilities, the forms of declarations, the kinds of entities and the
connectors of relationships. Each member of a vocabulary is written as one word, and reading a word
back gives the member it is written for, or the error that names the vocabulary.
-/

namespace ClassDiagram

class Vocabulary (α : Type) where
  label : String
  members : List α
  word : α → String

structure UnknownWord where
  vocabulary : String
  text : String
  deriving DecidableEq, Repr

def UnknownWord.message (e : UnknownWord) : String :=
  s!"{Text.quoted e.text} is not a valid {e.vocabulary}"

namespace Vocabulary

def find? (α : Type) [Vocabulary α] (text : String) : Option α :=
  (members : List α).find? fun m => word m == text

def read (α : Type) [Vocabulary α] (text : String) : Except UnknownWord α :=
  match find? α text with
  | some m => .ok m
  | none => .error ⟨label α, text⟩

end Vocabulary

inductive Visibility where
  | pub
  | prot
  | priv
  | pkg
  deriving DecidableEq, Repr

inductive Form where
  | cls
  | interface
  | enum
  | record
  deriving DecidableEq, Repr

inductive EntityKind where
  | cls
  | abstractCls
  | interface
  | enum
  | record
  deriving DecidableEq, Repr

inductive Connector where
  | containment
  | realization
  | extension
  | composition
  | dependency
  deriving DecidableEq, Repr

instance : Vocabulary Visibility where
  label := "Visibility"
  members := [.pub, .prot, .priv, .pkg]
  word
    | .pub => "public"
    | .prot => "protected"
    | .priv => "private"
    | .pkg => "package"

instance : Vocabulary Form where
  label := "TypeForm"
  members := [.cls, .interface, .enum, .record]
  word
    | .cls => "class"
    | .interface => "interface"
    | .enum => "enum"
    | .record => "record"

instance : Vocabulary EntityKind where
  label := "DeclarationKind"
  members := [.cls, .abstractCls, .interface, .enum, .record]
  word
    | .cls => "class"
    | .abstractCls => "abstract class"
    | .interface => "interface"
    | .enum => "enum"
    | .record => "record"

instance : Vocabulary Connector where
  label := "Connector"
  members := [.containment, .realization, .extension, .composition, .dependency]
  word
    | .containment => "+.."
    | .realization => "<|.."
    | .extension => "<|--"
    | .composition => "--"
    | .dependency => ".."

abbrev wordOf {α : Type} [Vocabulary α] (m : α) : String := Vocabulary.word m

def Visibility.ofModifier? : String → Option Visibility
  | "public" => some .pub
  | "protected" => some .prot
  | "private" => some .priv
  | _ => none

def Visibility.ofModifiers (modifiers : List String) : Visibility :=
  (modifiers.findSome? Visibility.ofModifier?).getD .pkg

end ClassDiagram
