import ClassDiagram.Session
import ClassDiagram.Proofs.Diagram.Reference

/-!
What the options hide leaves no trace. Taking the hidden members out of a declaration, at every depth,
and the later variables out of its fields, gives the same entity and the same links. Two source files that
agree once this is done have the same document, and two assemblies that agree so are visited alike.
-/

namespace ClassDiagram

def FieldDecl.visible (o : DiagramOptions) (d : FieldDecl) : Bool :=
  decide (Visibility.ofModifiers d.modifiers ∈ o.fieldVisibilities)

def FieldDecl.firstOnly (d : FieldDecl) : FieldDecl := { d with declarators := d.declarators.take 1 }

namespace Header

def stripped (o : DiagramOptions) (h : Header) : Header :=
  { h with
    fields := (h.fields.filter (FieldDecl.visible o)).map FieldDecl.firstOnly
    constructors := h.constructors.filter (ConstructorDecl.shown o)
    methods := h.methods.filter (MethodDecl.shown o) }

structure Bare (o : DiagramOptions) (h : Header) : Prop where
  fields : ∀ d ∈ h.fields,
    Visibility.ofModifiers d.modifiers ∈ o.fieldVisibilities ∧ d.declarators.length ≤ 1
  constructors : ∀ d ∈ h.constructors,
    o.showConstructors = true ∧ Visibility.ofModifiers d.modifiers ∈ o.methodVisibilities
  methods : ∀ d ∈ h.methods, Visibility.ofModifiers d.modifiers ∈ o.methodVisibilities

theorem bare_stripped (o : DiagramOptions) (h : Header) : (h.stripped o).Bare o := by
  refine ⟨fun d hd => ?_,fun d hd => ?_,fun d hd => ?_⟩
  · obtain ⟨f,hf,rfl⟩ := List.mem_map.mp hd
    refine ⟨of_decide_eq_true (List.mem_filter.mp hf).2,?_⟩
    simp only [FieldDecl.firstOnly,List.length_take]
    omega
  · simpa [ConstructorDecl.shown] using (List.mem_filter.mp hd).2
  · simpa [MethodDecl.shown] using (List.mem_filter.mp hd).2

end Header

mutual

def Declaration.stripped (o : DiagramOptions) : Declaration → Declaration
  | ⟨h, members⟩ => ⟨h.stripped o,Declaration.strippedAll o members⟩

def Declaration.strippedAll (o : DiagramOptions) : List Declaration → List Declaration
  | [] => []
  | d :: ds => d.stripped o :: Declaration.strippedAll o ds

end

def SourceUnit.stripped (o : DiagramOptions) (u : SourceUnit) : SourceUnit :=
  { u with types := Declaration.strippedAll o u.types }

def AssembledDecl.stripped (o : DiagramOptions) (n : AssembledDecl) : AssembledDecl :=
  { n with header := n.header.stripped o }

def Assembly.stripped (o : DiagramOptions) (a : Assembly) : Assembly :=
  { a with declarations := a.declarations.map (AssembledDecl.stripped o) }

namespace FieldDecl

variable (o : DiagramOptions)

theorem shown_firstOnly (d : FieldDecl) : d.firstOnly.shown o = d.shown o := by
  obtain ⟨modifiers,type,declarators⟩ := d
  cases declarators <;> rfl

theorem drawn?_firstOnly (d : FieldDecl) : d.firstOnly.drawn? = d.drawn? := by
  obtain ⟨modifiers,type,declarators⟩ := d
  cases declarators <;> rfl

theorem filter_shown_visible (ds : List FieldDecl) :
    ((ds.filter (visible o)).map firstOnly).filter (shown o) =
      (ds.filter (shown o)).map firstOnly := by
  have hcomp : shown o ∘ firstOnly = shown o := funext (shown_firstOnly o)
  have hboth : ∀ d ∈ ds, (shown o d && visible o d) = shown o d := by
    intro d _
    rw [shown,← visible]
    cases visible o d <;> simp
  rw [List.filter_map,hcomp,List.filter_filter,List.filter_congr hboth]

end FieldDecl

namespace Header

variable (o : DiagramOptions) (package : String) (imports : List Import) (path : String)

theorem drawnFields_stripped (h : Header) : (h.stripped o).drawnFields o = h.drawnFields o := by
  have hdrawn : FieldDecl.drawn? ∘ FieldDecl.firstOnly = FieldDecl.drawn? :=
    funext FieldDecl.drawn?_firstOnly
  simp only [drawnFields,stripped]
  rw [FieldDecl.filter_shown_visible,List.filterMap_map,hdrawn]
  rfl

theorem drawnMethods_stripped (h : Header) :
    (h.stripped o).drawnMethods o path = h.drawnMethods o path := by
  simp only [drawnMethods,stripped,List.filter_filter,Bool.and_self]

theorem fieldLinks_stripped (h : Header) :
    (h.stripped o).fieldLinks o package imports path = h.fieldLinks o package imports path := by
  simp only [fieldLinks,stripped,FieldDecl.filter_shown_visible,List.map_map]
  rfl

theorem methodLinks_stripped (h : Header) :
    (h.stripped o).methodLinks o package imports path = h.methodLinks o package imports path := by
  simp only [methodLinks,stripped,List.filter_filter,Bool.and_self]

theorem entity_stripped (h : Header) :
    (h.stripped o).entity o package imports path = h.entity o package imports path := by
  rw [entity_eq,entity_eq,drawnFields_stripped,drawnMethods_stripped,fieldLinks_stripped,
    methodLinks_stripped]
  rfl

end Header

namespace Declaration

variable (o : DiagramOptions)

theorem toHeader_stripped (d : Declaration) : (d.stripped o).toHeader = d.toHeader.stripped o := by
  cases d
  rw [stripped]

theorem members_stripped (d : Declaration) : (d.stripped o).members = strippedAll o d.members := by
  cases d
  rw [stripped]

theorem walkFrom_strippedAll (ds : List Declaration) :
    walkFrom (strippedAll o ds) = (walkFrom ds).map (stripped o) := by
  induction ds using forest_induction with
  | nil => simp [strippedAll,walkFrom]
  | cons h members ds ihm ihs =>
    rw [strippedAll,walkFrom_cons,walkFrom_cons,members_stripped,ihm,ihs]
    simp

end Declaration

theorem SourceUnit.walk_stripped (o : DiagramOptions) (u : SourceUnit) :
    (u.stripped o).walk = u.walk.map (Declaration.stripped o) :=
  Declaration.walkFrom_strippedAll o u.types

theorem Viewpoint.addForest_strippedAll (v : Viewpoint) (imports : List Import)
    (enclosing : Option String) (ds : List Declaration) (doc : Document) :
    v.addForest imports enclosing (Declaration.strippedAll v.options ds) doc =
      v.addForest imports enclosing ds doc := by
  induction ds using Declaration.forest_induction generalizing enclosing doc with
  | nil => rw [Declaration.strippedAll]
  | cons h members ds ihm ihs =>
    have hadd : ∀ path doc, v.addDeclaration imports path (h.stripped v.options) doc =
        v.addDeclaration imports path h doc := by
      intro path doc
      rw [addDeclaration,Header.entity_stripped]
      rfl
    rw [Declaration.strippedAll,addForest_cons,addForest_cons,Declaration.members_stripped,
      Declaration.toHeader_stripped]
    simp only [hadd,ihm,ihs]
    rfl

theorem SourceUnit.document_stripped (u : SourceUnit) (o : DiagramOptions) (package : Option String) :
    (u.stripped o).document o package = u.document o package :=
  Viewpoint.addForest_strippedAll ⟨package.getD u.package,o⟩ u.imports none u.types {}

namespace Assembly

variable (o : DiagramOptions) (a : Assembly)

theorem declaration_stripped (d : Nat) :
    (a.stripped o).declarations[d]? = a.declarations[d]?.map (AssembledDecl.stripped o) := by
  rw [stripped,List.getElem?_map]

theorem reach_stripped (depth d : Nat) : (a.stripped o).reach depth d = a.reach depth d := by
  induction depth generalizing d with
  | zero => rfl
  | succ depth ih =>
    rw [reach,reach,declaration_stripped]
    cases a.declarations[d]? with
    | none => rfl
    | some n => simp only [Option.map_some,AssembledDecl.stripped,ih]

theorem walk_stripped (u : Nat) : (a.stripped o).walk u = a.walk u := by
  have hlength : (a.stripped o).declarations.length = a.declarations.length := by simp [stripped]
  have hpreorder : (a.stripped o).preorder = a.preorder := by
    funext d
    rw [preorder,preorder,hlength,reach_stripped]
  rw [walk,walk,hpreorder]
  rfl

theorem climb_stripped (depth : Nat) (k : Container) (path : String) :
    (a.stripped o).climb depth k path = a.climb depth k path := by
  induction depth generalizing k path with
  | zero => cases k <;> rfl
  | succ depth ih =>
    cases k with
    | unit u => rfl
    | declaration d =>
      rw [climb,climb,declaration_stripped]
      cases a.declarations[d]? with
      | none => rfl
      | some n =>
        simp only [Option.map_some,AssembledDecl.stripped,ih]
        rfl

theorem place_stripped (n : AssembledDecl) :
    (a.stripped o).place (n.stripped o) = a.place n := by
  simp only [place,AssembledDecl.stripped,climb_stripped]
  simp only [stripped,List.length_map]
  rfl

end Assembly

namespace Canvas

variable (v : Viewpoint) (a : Assembly)

theorem visitOne_stripped (page d : Nat) (c : Canvas) :
    visitOne v (a.stripped v.options) page d c = visitOne v a page d c := by
  rw [visitOne,visitOne,Assembly.declaration_stripped]
  cases a.declarations[d]? with
  | none => rfl
  | some n =>
    simp only [Option.map_some,Assembly.place_stripped]
    simp only [AssembledDecl.stripped,Header.entity_stripped]

theorem visitEach_stripped (page : Nat) (ds : List Nat) (c : Canvas) :
    visitEach v (a.stripped v.options) page ds c = visitEach v a page ds c := by
  induction ds generalizing c with
  | nil => rfl
  | cons d ds ih =>
    rw [visitEach,visitEach,visitOne_stripped]
    simp only [ih]

theorem visitUnit_stripped (u : Nat) (c : Canvas) :
    visitUnit v (a.stripped v.options) u c = visitUnit v a u c := by
  rw [visitUnit,visitUnit,Assembly.walk_stripped,visitEach_stripped]

end Canvas

namespace Session

def drawing (s : Session) (n : Nat) (package : Option String) : Canvas × Reply :=
  ((s.perform (.buildDocument n package)).1.canvas,(s.perform (.buildDocument n package)).2)

theorem drawing_eq (s : Session) (n : Nat) (package : Option String) :
    s.drawing n package =
      let own := (s.assembly.units[n]?.map AssembledUnit.package).getD ""
      let drawn := s.canvas.visitUnit ⟨package.getD own,s.viewpoint.options⟩ s.assembly n
      (drawn.1,(drawn.2.map Reply.failed).getD .done) := by
  simp only [drawing,perform]
  generalize s.canvas.visitUnit _ s.assembly n = drawn
  obtain ⟨c,_ | e⟩ := drawn <;> rfl

theorem drawing_stripped (s : Session) (n : Nat) (package : Option String) :
    ({ s with assembly := s.assembly.stripped s.viewpoint.options } : Session).drawing n package =
      s.drawing n package := by
  rw [drawing_eq,drawing_eq]
  simp only
  have hunits : (s.assembly.stripped s.viewpoint.options).units = s.assembly.units := rfl
  rw [hunits]
  have hvisit := Canvas.visitUnit_stripped
    ⟨package.getD ((s.assembly.units[n]?.map AssembledUnit.package).getD ""),s.viewpoint.options⟩
    s.assembly n s.canvas
  rw [hvisit]

end Session

theorem hidden_members_leave_no_trace (o : DiagramOptions) (package : Option String) :
    (∀ unit : SourceUnit,
      (∀ d ∈ (unit.stripped o).walk, d.Bare o) ∧
        (unit.stripped o).document o package = unit.document o package) ∧
    (∀ unit other : SourceUnit, unit.stripped o = other.stripped o →
      unit.document o package = other.document o package) ∧
    ∀ (s : Session) (a : Assembly) (n : Nat), s.viewpoint.options = o →
      s.assembly.stripped o = a.stripped o →
      s.drawing n package = ({ s with assembly := a } : Session).drawing n package := by
  refine ⟨fun unit => ⟨fun d hd => ?_,unit.document_stripped o package⟩,fun unit other h => ?_,?_⟩
  · rw [SourceUnit.walk_stripped] at hd
    obtain ⟨t,_,rfl⟩ := List.mem_map.mp hd
    rw [Declaration.toHeader_stripped]
    exact Header.bare_stripped o _
  · rw [← unit.document_stripped,h,other.document_stripped]
  · rintro s a n rfl h
    have hother := Session.drawing_stripped { s with assembly := a } n package
    simp only at hother
    rw [← s.drawing_stripped,h,hother]

def publicOnly : DiagramOptions :=
  { fieldVisibilities := [.pub],methodVisibilities := [.pub],showConstructors := false }

def openVault : Header :=
  { form := .cls,name := "Vault"
    fields := [⟨["public"],.named "Coin" [] none,[⟨"first","Coin"⟩]⟩] }

def secretVault : Header :=
  { form := .cls,name := "Vault"
    fields := [⟨["private"],.named "Key" [] none,[⟨"key","Key"⟩]⟩,
      ⟨["public"],.named "Coin" [] none,[⟨"first","Coin"⟩,⟨"second","Coin[]"⟩]⟩]
    constructors := [⟨["public"],"Vault",[⟨[],.named "Key" [] none,"key"⟩]⟩] }

def bankWith (vault : Header) : SourceUnit :=
  { types := [{ form := .cls,name := "Bank",members := [⟨vault,[]⟩] }] }

def bankAssembledWith (vault : Header) : Assembly :=
  { declarations :=
      [{ header := { form := .cls,name := "Bank" },members := [1],parent := some (.unit 0) },
        { header := vault,parent := some (.declaration 0) }]
    units := [{ types := [0] }] }

theorem hidden_members_leave_no_trace_vault :
    (bankWith secretVault).stripped publicOnly = (bankWith openVault).stripped publicOnly ∧
    (bankWith secretVault).document publicOnly none = (bankWith openVault).document publicOnly none ∧
    Session.drawing ⟨bankAssembledWith secretVault,{},⟨"",publicOnly⟩⟩ 0 none =
      Session.drawing ⟨bankAssembledWith openVault,{},⟨"",publicOnly⟩⟩ 0 none := by
  obtain ⟨_,hunits,hsessions⟩ := hidden_members_leave_no_trace publicOnly none
  have h : (bankWith secretVault).stripped publicOnly = (bankWith openVault).stripped publicOnly := rfl
  exact ⟨h,hunits _ _ h,hsessions ⟨bankAssembledWith secretVault,{},⟨"",publicOnly⟩⟩ _ 0 rfl rfl⟩

end ClassDiagram
