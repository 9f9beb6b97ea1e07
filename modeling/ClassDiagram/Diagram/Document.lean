import ClassDiagram.Vocabulary

/-!
The contents of a class diagram. A document holds the entities of one source file in the order in which
they were declared, and the relationships found while they were read, repetitions included.
-/

namespace ClassDiagram

structure Relationship where
  connector : Connector
  source : String
  target : String
  deriving DecidableEq, Repr

structure Field where
  visibility : Visibility
  isStatic : Bool
  type : String
  name : String
  deriving DecidableEq, Repr

structure Method where
  visibility : Visibility
  isStatic : Bool
  isAbstract : Bool
  returnType : String
  name : String
  parameters : List String
  deriving DecidableEq, Repr

-- The simple names that a source file imports, each with the qualified name it stands for. A name is
-- listed once, at the place where it was first bound.
abbrev ImportTable := List (String × String)

namespace ImportTable

def bind (name qualified : String) : ImportTable → ImportTable
  | [] => [(name, qualified)]
  | (n, q) :: table =>
      if n = name then (n, qualified) :: table else (n, q) :: bind name qualified table

def get? (table : ImportTable) (name : String) : Option String :=
  table.lookup name

@[simp]
theorem get?_bind (table : ImportTable) (name qualified other : String) :
    get? (bind name qualified table) other =
      if other = name then some qualified else get? table other := by
  induction table with
  | nil =>
      by_cases h : other = name
      · simp [bind, get?, h]
      · have hb : (other == name) = false := by simp [h]
        simp [bind, get?, List.lookup_cons, h, hb]
  | cons b table ih =>
      obtain ⟨n, q⟩ := b
      by_cases hn : n = name
      · subst hn
        by_cases h : other = n
        · simp [bind, get?, h]
        · have hb : (other == n) = false := by simp [h]
          simp [bind, get?, List.lookup_cons, h, hb]
      · by_cases h : other = n
        · subst h
          simp [bind, get?, hn]
        · have hb : (other == n) = false := by simp [h]
          simpa [bind, get?, List.lookup_cons, hn, hb] using ih

def agrees (a b : ImportTable) : Bool :=
  a.all (fun x => get? b x.1 == some x.2) && b.all (fun x => get? a x.1 == some x.2)

end ImportTable

def qualify (package name : String) : String :=
  if package = "" then name else package ++ "." ++ name

structure Entity where
  package : String
  kind : EntityKind
  name : String
  imports : ImportTable := []
  fields : List Field := []
  methods : List Method := []
  deriving DecidableEq, Repr

namespace Entity

def qualifiedName (e : Entity) : String := qualify e.package e.name

def agrees (a b : Entity) : Bool :=
  a.package == b.package && a.kind == b.kind && a.name == b.name &&
    ImportTable.agrees a.imports b.imports && a.fields == b.fields && a.methods == b.methods

end Entity

structure Document where
  types : List Entity := []
  relationships : List Relationship := []
  deriving DecidableEq, Repr

namespace Document

def extend (d : Document) (e : Entity) (links : List Relationship) : Document :=
  { types := d.types ++ [e], relationships := d.relationships ++ links }

def append (a b : Document) : Document :=
  { types := a.types ++ b.types, relationships := a.relationships ++ b.relationships }

instance : Append Document := ⟨append⟩

end Document

end ClassDiagram
