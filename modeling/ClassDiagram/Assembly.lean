import ClassDiagram.Declaration

/-!
Declarations put together piece by piece. An assembly holds declarations and source units, each known by
its number; a declaration may be attached to a unit or to another declaration, more than once, and
remembers what it was attached to last. The path of a declaration's name follows these links upward
and fails when they do not lead to a unit.
-/

namespace ClassDiagram

inductive Container where
  | unit (u : Nat)
  | declaration (d : Nat)
  deriving DecidableEq, Repr

structure AssembledDecl where
  header : Header
  members : List Nat := []
  parent : Option Container := none
  deriving Repr

structure AssembledUnit where
  package : String := ""
  imports : List Import := []
  types : List Nat := []
  deriving Repr

structure Assembly where
  declarations : List AssembledDecl := []
  units : List AssembledUnit := []
  deriving Repr

inductive PlacementError where
  | noParent (name : String)
  | detached (name : String)
  | noDocument (name : String)
  deriving DecidableEq, Repr

def PlacementError.message : PlacementError → String
  | .noParent name => s!"type declaration {Text.quoted name} has no parent"
  | .detached name =>
      s!"type declaration {Text.quoted name} is detached from its compilation unit"
  | .noDocument name => s!"type entity {Text.quoted name} is not attached to a document"

namespace Assembly

def addUnit (a : Assembly) (package : String) (imports : List Import) : Assembly :=
  { a with units := a.units ++ [{ package, imports }] }

def addHeader (a : Assembly) (h : Header) : Assembly :=
  { a with declarations := a.declarations ++ [{ header := h }] }

def attachMember (a : Assembly) (parent child : Nat) : Assembly :=
  { a with
    declarations :=
      (a.declarations.modify child fun n => { n with parent := some (.declaration parent) }).modify
        parent fun n => { n with members := n.members ++ [child] } }

def attachType (a : Assembly) (unit child : Nat) : Assembly :=
  { declarations := a.declarations.modify child fun n => { n with parent := some (.unit unit) },
    units := a.units.modify unit fun n => { n with types := n.types ++ [child] } }

def fill (a : Assembly) (d : Nat) (f : Header → Header) : Assembly :=
  { a with declarations := a.declarations.modify d fun n => { n with header := f n.header } }

def setPackage (a : Assembly) (unit : Nat) (package : String) : Assembly :=
  { a with units := a.units.modify unit fun n => { n with package } }

def addImport (a : Assembly) (unit : Nat) (i : Import) : Assembly :=
  { a with units := a.units.modify unit fun n => { n with imports := n.imports ++ [i] } }

mutual

def addTree : Declaration → Assembly → Assembly
  | ⟨h, members⟩, a => addForest a.declarations.length members (a.addHeader h)

def addForest (parent : Nat) : List Declaration → Assembly → Assembly
  | [], a => a
  | d :: ds, a =>
      addForest parent ds ((addTree d a).attachMember parent a.declarations.length)

end

-- The declarations reached from a declaration through the types attached to it, at most `depth` levels
-- of them: each before those attached to it.
def reach (a : Assembly) : Nat → Nat → List Nat
  | 0, _ => []
  | depth + 1, d =>
      match a.declarations[d]? with
      | none => []
      | some n => d :: n.members.flatMap fun m => reach a depth m

-- A declaration and all those below it. No chain of attachments is longer than the number of
-- declarations unless a declaration stands below itself.
def preorder (a : Assembly) (d : Nat) : List Nat := a.reach a.declarations.length d

def walk (a : Assembly) (u : Nat) : List Nat :=
  match a.units[u]? with
  | none => []
  | some n => n.types.flatMap a.preorder

def displayNames (a : Assembly) (ds : List Nat) : List String :=
  ds.filterMap fun d => a.declarations[d]?.map fun n => n.header.displayName

def climb (a : Assembly) : Nat → Container → String → Option (String × AssembledUnit)
  | _, .unit u, path => a.units[u]?.map fun n => (path, n)
  | 0, .declaration _, _ => none
  | depth + 1, .declaration d, path =>
      match a.declarations[d]? with
      | none => none
      | some n =>
          match n.parent with
          | none => none
          | some above => climb a depth above (n.header.displayName ++ "." ++ path)

def place (a : Assembly) (n : AssembledDecl) : Except PlacementError (String × AssembledUnit) :=
  match n.parent with
  | none => .error (.noParent n.header.name)
  | some above =>
      match a.climb a.declarations.length above n.header.displayName with
      | none => .error (.detached n.header.name)
      | some placed => .ok placed

end Assembly

end ClassDiagram
