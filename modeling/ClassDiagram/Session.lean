import ClassDiagram.Diagram.Canvas
import ClassDiagram.PlantUml

/-!
Sessions: sequences of steps that assemble declarations and draw documents from them. A step that fails
keeps what it had done before, and the session goes on.
-/

namespace ClassDiagram

inductive Surface where
  | document (page : Nat)
  | entity (i : Nat)
  deriving DecidableEq, Repr

inductive Member where
  | field (d : FieldDecl)
  | constructor (d : ConstructorDecl)
  | method (d : MethodDecl)
  | constant (name : String)
  | component (p : Parameter)

def Member.record (o : DiagramOptions) : Member → Entity → Recorded
  | .field d, e => e.recordField o d
  | .constructor d, e => e.recordConstructor o d
  | .method d, e => e.recordMethod o d
  | .constant name, e => (e.recordConstant name, [])
  | .component p, e => (e.recordComponent p, [])

inductive Step where
  | configure (package : Option String) (options : Option DiagramOptions)
  | declare (d : Declaration)
  | openUnit (package : String) (imports : List Import)
  | attachMember (parent child : Nat)
  | attachType (unit child : Nat)
  | walk (unit : Nat)
  | openDocument
  | buildDocument (unit : Nat) (package : Option String)
  | addEntity (page : Nat) (package : String) (kind : EntityKind) (name : String)
  | addLoose (package : String) (kind : EntityKind) (name : String)
  | bindImport (entity : Nat) (name qualified : String)
  | relate (page : Nat) (link : Relationship)
  | visitType (declaration : Nat) (surface : Surface)
  | visitMember (member : Member) (surface : Surface)
  | compare (a b : Nat)
  | renderEntity (entity : Nat)
  | render (title : Option String)
  | unique

inductive Reply where
  | done
  | names (names : List String)
  | added (packagePart qualifiedName : String)
  | verdict (same : Bool)
  | lines (lines : List String)
  | text (text : String)
  | links (links : List Relationship)
  | failed (error : PlacementError)
  deriving DecidableEq, Repr

structure Session where
  assembly : Assembly := {}
  canvas : Canvas := {}
  viewpoint : Viewpoint := {}
  deriving Repr

namespace Session

def withCanvas (s : Session) : Canvas × Option PlacementError → Session × Reply
  | (c, none) => ({ s with canvas := c }, .done)
  | (c, some e) => ({ s with canvas := c }, .failed e)

def perform (s : Session) : Step → Session × Reply
  | .configure package options =>
      ({ s with viewpoint := ⟨package.getD s.viewpoint.package, options.getD s.viewpoint.options⟩ },
        .done)
  | .declare d => ({ s with assembly := Assembly.addTree d s.assembly }, .done)
  | .openUnit package imports => ({ s with assembly := s.assembly.addUnit package imports }, .done)
  | .attachMember parent child =>
      ({ s with assembly := s.assembly.attachMember parent child }, .done)
  | .attachType unit child => ({ s with assembly := s.assembly.attachType unit child }, .done)
  | .walk unit => (s, .names (s.assembly.displayNames (s.assembly.walk unit)))
  | .openDocument => ({ s with canvas := s.canvas.addPage }, .done)
  | .buildDocument unit package =>
      let own := (s.assembly.units[unit]?.map AssembledUnit.package).getD ""
      let v : Viewpoint := ⟨package.getD own, s.viewpoint.options⟩
      s.withCanvas (s.canvas.visitUnit v s.assembly unit)
  | .addEntity page package kind name =>
      ({ s with canvas := s.canvas.addEntity page { package, kind, name } },
        .added (qualify package "") (qualify package name))
  | .addLoose package kind name =>
      ({ s with canvas := s.canvas.addLoose { package, kind, name } }, .done)
  | .bindImport entity name qualified =>
      ({ s with canvas := s.canvas.bindImport entity name qualified }, .done)
  | .relate page link => ({ s with canvas := s.canvas.relate page [link] }, .done)
  | .visitType d (.document page) =>
      s.withCanvas (s.canvas.visitEach s.viewpoint s.assembly page (s.assembly.preorder d))
  | .visitType _ (.entity _) => (s, .done)
  | .visitMember m (.entity i) => s.withCanvas (s.canvas.record i (m.record s.viewpoint.options))
  | .visitMember _ (.document _) => (s, .done)
  | .compare a b =>
      match s.canvas.entities[a]?, s.canvas.entities[b]? with
      | some x, some y => (s, .verdict (x.entity.agrees y.entity))
      | _, _ => (s, .verdict false)
  | .renderEntity i =>
      (s, .lines ((s.canvas.entities[i]?.map fun p => PlantUml.entity p.entity).getD []))
  | .render title => (s, .text (PlantUml.render s.canvas.documents title))
  | .unique => (s, .links (uniqueRelationships s.canvas.documents))

end Session

end ClassDiagram
