import ClassDiagram.Assembly
import ClassDiagram.Diagram.Record

/-!
Documents that are filled step by step. A canvas holds entities and documents, each known by its number;
an entity belongs to one document or to none. Visiting a declaration adds an entity to a document, and
visiting a member records it on an entity. Entities and relationships are only ever added.
-/

namespace ClassDiagram

structure PlacedEntity where
  entity : Entity
  home : Option Nat
  deriving DecidableEq, Repr

structure Page where
  types : List Nat := []
  relationships : List Relationship := []
  deriving DecidableEq, Repr

structure Canvas where
  entities : List PlacedEntity := []
  pages : List Page := []
  deriving DecidableEq, Repr

namespace Canvas

def addPage (c : Canvas) : Canvas := { c with pages := c.pages ++ [{}] }

def addLoose (c : Canvas) (e : Entity) : Canvas :=
  { c with entities := c.entities ++ [⟨e, none⟩] }

def relate (c : Canvas) (page : Nat) (links : List Relationship) : Canvas :=
  { c with pages := c.pages.modify page fun p => { p with relationships := p.relationships ++ links } }

def addEntity (c : Canvas) (page : Nat) (e : Entity) : Canvas :=
  { entities := c.entities ++ [⟨e, some page⟩],
    pages := c.pages.modify page fun p => { p with types := p.types ++ [c.entities.length] } }

def setEntity (c : Canvas) (i : Nat) (e : Entity) : Canvas :=
  { c with entities := c.entities.modify i fun p => { p with entity := e } }

def bindImport (c : Canvas) (i : Nat) (name qualified : String) : Canvas :=
  match c.entities[i]? with
  | none => c
  | some p =>
      c.setEntity i { p.entity with imports := ImportTable.bind name qualified p.entity.imports }

-- Records a member on an entity. When it implies relationships and the entity belongs to no document,
-- the member stays recorded and the relationships are refused.
def record (c : Canvas) (i : Nat) (member : Entity → Recorded) : Canvas × Option PlacementError :=
  match c.entities[i]? with
  | none => (c, none)
  | some p =>
      let (e, links) := member p.entity
      let c₁ := c.setEntity i e
      if links = [] then (c₁, none)
      else match p.home with
        | none => (c₁, some (.noDocument p.entity.name))
        | some page => (c₁.relate page links, none)

def visitOne (v : Viewpoint) (a : Assembly) (page : Nat) (d : Nat) (c : Canvas) :
    Except PlacementError Canvas :=
  match a.declarations[d]? with
  | none => .ok c
  | some n =>
      match a.place n with
      | .error e => .error e
      | .ok (path, unit) =>
          let (e, links) := n.header.entity v.options v.entityPackage unit.imports path
          .ok ((c.addEntity page e).relate page (containment v.entityPackage path ++ links))

def visitEach (v : Viewpoint) (a : Assembly) (page : Nat) :
    List Nat → Canvas → Canvas × Option PlacementError
  | [], c => (c, none)
  | d :: ds, c =>
      match visitOne v a page d c with
      | .error e => (c, some e)
      | .ok c₁ => visitEach v a page ds c₁

def visitUnit (v : Viewpoint) (a : Assembly) (unit : Nat) (c : Canvas) :
    Canvas × Option PlacementError :=
  match visitEach v a c.pages.length (a.walk unit) c.addPage with
  | (c₁, none) => (c₁, none)
  | (_, some e) => (c, some e)

def entitiesOf (c : Canvas) (p : Page) : List Entity :=
  p.types.filterMap fun i => c.entities[i]?.map PlacedEntity.entity

def documents (c : Canvas) : List Document :=
  c.pages.map fun p => { types := c.entitiesOf p, relationships := p.relationships }

end Canvas

end ClassDiagram
