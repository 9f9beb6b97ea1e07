import ClassDiagram.Java.Assembling
import ClassDiagram.Proofs.Assembly.Layout
import ClassDiagram.Proofs.Java.Complete

/-!
Trees put together as assemblies and trees read as declarations. Filling a declaration in while its node is gone
through, and attaching the types nested in it as they are completed, comes to the same as reading the declaration
first and adding it as a whole. Both fail on the same trees.
-/

namespace ClassDiagram

namespace Assembly

variable {a : Assembly} {d : Nat}

theorem fill_id (a : Assembly) (d : Nat) : a.fill d id = a :=
  congrArg (Assembly.mk · a.units) (List.modify_id d a.declarations)

theorem fill_fill (a : Assembly) (d : Nat) (f g : Header → Header) :
    (a.fill d f).fill d g = a.fill d (g ∘ f) := by
  simp only [fill,List.modify_modify_eq]
  rfl

theorem length_fill (a : Assembly) (d : Nat) (f : Header → Header) :
    (a.fill d f).declarations.length = a.declarations.length := by
  simp [fill]

theorem fill_addHeader (a : Assembly) (h : Header) (f : Header → Header) :
    (a.addHeader h).fill a.declarations.length f = a.addHeader (f h) := by
  simp only [fill,addHeader,modify_append_cons]

theorem addForest_fill (hd : d < a.declarations.length) (ds : List Declaration) (f : Header → Header) :
    (addForest d ds a).fill d f = addForest d ds (a.fill d f) := by
  have hd' : d < (a.fill d f).declarations.length := by rwa [length_fill]
  rw [addForest_eq ds a d hd,addForest_eq ds (a.fill d f) d hd',length_fill]
  simp only [fill]
  rw [modify_append_left _ (by simpa using hd),List.modify_modify_eq,List.modify_modify_eq]
  rfl

theorem addForest_append (d : Nat) (xs ys : List Declaration) (a : Assembly) :
    addForest d (xs ++ ys) a = addForest d ys (addForest d xs a) := by
  induction xs generalizing a with
  | nil => simp [addForest]
  | cons x xs ih =>
    rw [List.cons_append,addForest,ih,addForest]

theorem length_addForest (hd : d < a.declarations.length) (ds : List Declaration) :
    (addForest d ds a).declarations.length = a.declarations.length + Declaration.sizes ds := by
  rw [addForest_eq ds a d hd]
  simp [layoutAmong_length]

end Assembly

namespace Java

section Bodies

variable {a : Assembly} {d : Nat}

def Body.addTo (b : Body) (h : Header) : Header :=
  { h with
    fields := h.fields ++ b.fields
    constructors := h.constructors ++ b.constructors
    methods := h.methods ++ b.methods
    constants := h.constants ++ b.constants }

theorem Body.addTo_constants (cs : List String) :
    Body.addTo { constants := cs } = fun h => { h with constants := h.constants ++ cs } := by
  funext h
  simp [Body.addTo]

theorem Body.addTo_fields (fs : List FieldDecl) :
    Body.addTo { fields := fs } = fun h => { h with fields := h.fields ++ fs } := by
  funext h
  simp [Body.addTo]

theorem Body.addTo_methods (ms : List MethodDecl) :
    Body.addTo { methods := ms } = fun h => { h with methods := h.methods ++ ms } := by
  funext h
  simp [Body.addTo]

theorem Body.addTo_constructors (ks : List ConstructorDecl) :
    Body.addTo { constructors := ks } = fun h => { h with constructors := h.constructors ++ ks } := by
  funext h
  simp [Body.addTo]

-- What a body adds to a declaration of an assembly, taken as a whole.
def received (d : Nat) (a : Assembly) (b : Body) : Assembly :=
  Assembly.addForest d b.members (a.fill d b.addTo)

theorem received_members (d : Nat) (a : Assembly) (ds : List Declaration) :
    received d a { members := ds } = Assembly.addForest d ds a := by
  have hadd : Body.addTo { members := ds } = id := by
    funext h
    simp [Body.addTo]
  rw [received,hadd,Assembly.fill_id]

theorem received_empty (d : Nat) (a : Assembly) : received d a {} = a :=
  (received_members d a []).trans (by rw [Assembly.addForest])

theorem received_header {b : Body} (hb : b.members = []) (d : Nat) (a : Assembly) :
    received d a b = a.fill d b.addTo := by
  rw [received,hb,Assembly.addForest]

theorem received_append (hd : d < a.declarations.length) (b c : Body) :
    received d a (b.append c) = received d (received d a b) c := by
  have hadd : (b.append c).addTo = c.addTo ∘ b.addTo := by
    funext h
    simp [Body.addTo,Body.append]
  have hd' : d < (a.fill d b.addTo).declarations.length := by rwa [Assembly.length_fill]
  simp only [received]
  rw [Assembly.addForest_fill hd',Assembly.fill_fill,hadd,← Assembly.addForest_append]
  rfl

theorem length_received (hd : d < a.declarations.length) (b : Body) :
    d < (received d a b).declarations.length := by
  have hd' : d < (a.fill d b.addTo).declarations.length := by rwa [Assembly.length_fill]
  rw [received,Assembly.length_addForest hd']
  omega

theorem foldl_received (hd : d < a.declarations.length) (parts : List Body) (b : Body) :
    parts.foldl (received d) (received d a b) = received d a (parts.foldl Body.append b) := by
  induction parts generalizing b with
  | nil => rfl
  | cons p parts ih => rw [List.foldl_cons,List.foldl_cons,← received_append hd,ih]

end Bodies

section Steps

variable {α β γ : Type}

-- Steps that read and then change a state, one after another, read all first and then make the changes.
theorem foldlM_eq_allOk {P : β → Prop} {read : γ → Result α} {change : β → α → β}
    {step : β → γ → Result β} {xs : List γ}
    (hstep : ∀ x ∈ xs, ∀ b, P b → step b x = (read x).map (change b))
    (hchange : ∀ b v, P b → P (change b v)) {b : β} (hb : P b) :
    xs.foldlM step b = (allOk (xs.map read)).map fun vs => vs.foldl change b := by
  induction xs generalizing b with
  | nil => rfl
  | cons x xs ih =>
    obtain ⟨hx,hxs⟩ := List.forall_mem_cons.mp hstep
    rw [List.foldlM_cons,hx b hb,List.map_cons,allOk]
    cases read x with
    | error e => rfl
    | ok v =>
      change xs.foldlM step (change b v) = _
      rw [ih hxs (hchange b v hb)]
      cases allOk (xs.map read) <;> rfl

theorem FailsOnly.bind_comm {x : Result α} {y : Result β} (hx : FailsOnly (· = .missingChild) x)
    (hy : FailsOnly (· = .missingChild) y) (f : α → β → Result γ) :
    (x >>= fun a => y >>= fun b => f a b) = y >>= fun b => x >>= fun a => f a b := by
  cases x with
  | ok a => rfl
  | error e =>
    cases y with
    | ok b => rfl
    | error e' =>
      obtain rfl := hx e rfl
      obtain rfl := hy e' rfl
      rfl

end Steps

section Readings

variable {α : Type} {p : Node → Bool} {read : Node → Result α} {c : Node}

def readEach (p : Node → Bool) (read : Node → Result α) (cs : List Node) : Result (List α) :=
  allOk ((cs.filter p).map read)

theorem readEach_failsOnly {E : TreeError → Prop} (hread : ∀ c, FailsOnly E (read c)) (p : Node → Bool)
    (cs : List Node) : FailsOnly E (readEach p read cs) :=
  allOk_map_failsOnly fun c _ => hread c

theorem readEach_cons (hc : p c = true) (cs : List Node) :
    readEach p read (c :: cs) = read c >>= fun v => readEach p read cs >>= fun vs => pure (v :: vs) := by
  rw [readEach,List.filter_cons_of_pos hc]
  rfl

theorem readEach_cons_of_not (hc : p c = false) (cs : List Node) :
    readEach p read (c :: cs) = readEach p read cs := by
  rw [readEach,List.filter_cons_of_neg (by simp [hc])]
  rfl

end Readings

section Headers

variable {form : Form} {c : Node}

def givesExtended (c : Node) : Bool := c.kind = .superclass || c.kind = .extendsInterfaces

def givesImplemented (c : Node) : Bool := c.kind = .superInterfaces

def givesComponents (form : Form) (c : Node) : Bool := c.kind = .formalParameters && form = .record

theorem gives_at_most_one (form : Form) (c : Node) :
    (givesExtended c = true → givesImplemented c = false ∧ givesComponents form c = false) ∧
      (givesImplemented c = true → givesComponents form c = false) := by
  cases hk : c.kind <;> simp [givesExtended,givesImplemented,givesComponents,hk]

theorem headerPart_extended (hc : givesExtended c = true) (form : Form) :
    headerPart form c = (typesListed c).map fun ts h => { h with extended := h.extended ++ ts } := by
  have hk : c.kind = .superclass ∨ c.kind = .extendsInterfaces := by simpa [givesExtended] using hc
  rcases hk with hk | hk <;> rw [headerPart,hk]

theorem headerPart_implemented (hc : givesImplemented c = true) (form : Form) :
    headerPart form c =
      (typesListed c).map fun ts h => { h with implemented := h.implemented ++ ts } := by
  have hk : c.kind = .superInterfaces := by simpa [givesImplemented] using hc
  rw [headerPart,hk]

def parametersIn (c : Node) : Result (List Parameter) := parametersOf (some c)

theorem headerPart_components (hc : givesComponents form c = true) :
    headerPart form c = (parametersIn c).map fun ps h => { h with components := ps } := by
  obtain ⟨hk,hform⟩ : c.kind = .formalParameters ∧ form = .record := by
    simpa [givesComponents] using hc
  rw [headerPart,hk,if_pos hform,parametersIn]

theorem headerPart_idle (hextended : givesExtended c = false) (himplemented : givesImplemented c = false)
    (hcomponents : givesComponents form c = false) : headerPart form c = .ok id := by
  rw [headerPart]
  split <;> simp_all [givesExtended,givesImplemented,givesComponents]

-- What the children of a declaration node say of its header, read kind by kind.
def headerOf (form : Form) (cs : List Node) : Result (Header → Header) := do
  let extended ← readEach givesExtended typesListed cs
  let implemented ← readEach givesImplemented typesListed cs
  let components ← readEach (givesComponents form) parametersIn cs
  pure fun h =>
    { h with
      extended := h.extended ++ extended.flatten
      implemented := h.implemented ++ implemented.flatten
      components := components.getLast?.getD h.components }

theorem headerOf_nil (form : Form) : headerOf form [] = .ok id := by
  change Except.ok (fun h : Header => { h with
    extended := h.extended ++ [],implemented := h.implemented ++ [],components := h.components }) = _
  simp only [List.append_nil]
  rfl

theorem getLast?_cons_getD {α : Type} (x : α) (xs : List α) (y : α) :
    (x :: xs).getLast?.getD y = xs.getLast?.getD x := by
  cases xs <;> simp [List.getLast?_cons]

-- The children are gone through in their order, so what fails first may be another child; the failure is
-- the same.
theorem headerOf_cons (form : Form) (c : Node) (cs : List Node) :
    headerOf form (c :: cs) = (do
      let f ← headerPart form c
      let g ← headerOf form cs
      pure (g ∘ f)) := by
  have htypes : ∀ c, FailsOnly (· = .missingChild) (typesListed c) := fun c =>
    typesListed_failsOnly (missing_excused c)
  have hparameters : ∀ c, FailsOnly (· = .missingChild) (parametersIn c) := fun c =>
    parametersOf_failsOnly fun n _ => missing_excused n
  have hextended := readEach_failsOnly htypes givesExtended cs
  have himplemented := readEach_failsOnly htypes givesImplemented cs
  obtain ⟨hothers,hlast⟩ := gives_at_most_one form c
  cases hext : givesExtended c with
  | true =>
    rw [headerOf,readEach_cons hext,readEach_cons_of_not (hothers hext).1,
      readEach_cons_of_not (hothers hext).2,headerPart_extended hext]
    simp [headerOf,map_bind,Function.comp_def]
  | false =>
    cases himpl : givesImplemented c with
    | true =>
      rw [headerOf,readEach_cons_of_not hext,readEach_cons himpl,readEach_cons_of_not (hlast himpl),
        headerPart_implemented himpl]
      simp only [bind_assoc,pure_bind]
      rw [FailsOnly.bind_comm hextended (htypes c)]
      simp [headerOf,map_bind,Function.comp_def]
    | false =>
      cases hcomp : givesComponents form c with
      | true =>
        rw [headerOf,readEach_cons_of_not hext,readEach_cons_of_not himpl,readEach_cons hcomp,
          headerPart_components hcomp]
        simp only [bind_assoc,pure_bind,FailsOnly.bind_comm himplemented (hparameters c)]
        rw [FailsOnly.bind_comm hextended (hparameters c)]
        simp [headerOf,map_bind,Function.comp_def,getLast?_cons_getD]
      | false =>
        rw [headerOf,readEach_cons_of_not hext,readEach_cons_of_not himpl,readEach_cons_of_not hcomp,
          ← headerOf,headerPart_idle hext himpl hcomp]
        cases headerOf form cs <;> rfl

theorem foldlM_fillHeader (form : Form) (cs : List Node) (a : Assembly) (h : Header) :
    cs.foldlM (fillHeader form a.declarations.length) (a.addHeader h) =
      (headerOf form cs).map fun f => a.addHeader (f h) := by
  induction cs generalizing h with
  | nil =>
    rw [headerOf_nil]
    rfl
  | cons c cs ih =>
    rw [List.foldlM_cons,headerOf_cons,fillHeader]
    cases headerPart form c with
    | error e => rfl
    | ok f =>
      change cs.foldlM _ ((a.addHeader h).fill a.declarations.length f) = _
      rw [Assembly.fill_addHeader,ih]
      cases headerOf form cs <;> rfl

def bareHeader (form : Form) (n : Node) : Header :=
  { form,name := nameOf n,modifiers := modifiersOf n,typeParameters := typeParametersOf n }

theorem declarationOf_eq_headerOf (form : Form) (n : Node) :
    declarationOf form n = (do
      let f ← headerOf form n.children
      let body ← ownBody n
      pure ⟨body.addTo (f (bareHeader form n)),body.members⟩) := by
  have hcomponents : componentsOf form n =
      (readEach (givesComponents form) parametersIn n.children).map fun lists => lists.getLast?.getD [] := by
    rw [componentsOf]
    by_cases hform : form = .record
    · have hgives : givesComponents form = fun c => decide (c.kind = .formalParameters) := by
        funext c
        simp [givesComponents,hform]
      rw [if_pos hform,hgives]
      exact bind_pure_comp _ _
    · have hgives : givesComponents form = fun _ => false := by
        funext c
        simp [givesComponents,hform]
      rw [if_neg hform,hgives,readEach,List.filter_false]
      rfl
  have hextended : allOk ((n.children.filter fun c =>
      c.kind = .superclass || c.kind = .extendsInterfaces).map typesListed) =
        readEach givesExtended typesListed n.children := rfl
  have himplemented : allOk ((n.children.filter (·.kind = .superInterfaces)).map typesListed) =
      readEach givesImplemented typesListed n.children := rfl
  rw [declarationOf_eq,headerOf,hcomponents,hextended,himplemented]
  simp only [map_bind,bind_assoc,pure_bind]
  rfl

end Headers

section Filling

def fillBody (d : Nat) (n : Node) (a : Assembly) : Result Assembly :=
  (n.readWith fillFrom).value >>= fun filling => filling d a

theorem fillBody_eq (d : Nat) (n : Node) (a : Assembly) :
    fillBody d n a = n.namedChildren.foldlM (fun a c => fillPart d a (c.readWith fillFrom)) a := by
  rw [fillBody,Node.readWith_value,fillFrom,List.filter_map]
  change ((n.children.filter _).map (Node.readWith fillFrom)).foldlM (fillPart d) a = _
  rw [List.foldlM_map]
  simp only [Function.comp_def,Node.readWith_node]
  rfl

def FillsAs (b : Node) : Prop :=
  ∀ (d : Nat) (a : Assembly), d < a.declarations.length →
    fillBody d b a = (bodyOf b).map (received d a)

theorem declare_eq {n : Node} (hn : n.declaresType = true)
    (hbody : ∀ b, n.child? .body = some b → FillsAs b) (a : Assembly) :
    declare n a = (typeOf n).map fun t => (a.declarations.length,Assembly.addTree t a) := by
  obtain ⟨form,hf⟩ := Option.isSome_iff_exists.mp hn
  have hform : formOf n = .ok form := by rw [formOf,hf]
  have hbodies : (n.readWith fillFrom).below.find? (fun b => b.1.role = some .body) =
      (n.child? .body).map fun b => (b,(b.readWith fillFrom).value) := by
    rw [Node.readWith_below,List.find?_map]
    rfl
  rw [typeOf_eq hf,declarationOf_eq_headerOf,declare,declareFrom,hform,hbodies]
  change ((n.children.foldlM (fillHeader form a.declarations.length)
    (a.addHeader (bareHeader form n)) : Result Assembly) >>= _) = _
  rw [foldlM_fillHeader]
  cases headerOf form n.children with
  | error e => rfl
  | ok f =>
    let header := f (bareHeader form n)
    have hlength : a.declarations.length < (a.addHeader header).declarations.length := by
      simp [Assembly.addHeader]
    cases hb : n.child? .body with
    | none =>
      have hown : ownBody n = .ok {} := by rw [ownBody,hb]
      have hempty : Body.addTo {} header = header := by simp [Body.addTo]
      rw [hown]
      change Except.ok (a.declarations.length,a.addHeader header) =
        .ok (a.declarations.length,Assembly.addTree ⟨Body.addTo {} header,[]⟩ a)
      rw [hempty,Assembly.addTree,Assembly.addForest]
    | some b =>
      have hown : ownBody n = bodyOf b := by rw [ownBody,hb]
      rw [hown]
      change ((b.readWith fillFrom).value >>= fun filling =>
        filling a.declarations.length (a.addHeader header) >>= fun filled =>
          pure (a.declarations.length,filled)) = _
      rw [← bind_assoc,← fillBody,hbody b hb _ _ hlength]
      cases bodyOf b with
      | error e => rfl
      | ok body =>
        change Except.ok (a.declarations.length,received a.declarations.length (a.addHeader header) body) =
          .ok (a.declarations.length,Assembly.addTree ⟨body.addTo header,body.members⟩ a)
        rw [received,Assembly.fill_addHeader,Assembly.addTree]

section Parts

variable {c : Node} {d : Nat} {a : Assembly}

theorem fillPart_constant (hk : c.kind = .enumConstant) :
    fillPart d a (c.readWith fillFrom) = (partOf c).map (received d a) := by
  rw [fillPart,Node.readWith_node,hk,partOf_constant hk]
  change _ = Except.ok (received d a { constants := [nameOf c] })
  simp [received_header,Body.addTo_constants]

theorem fillPart_enumBody (hk : c.kind = .enumBodyDecls) :
    fillPart d a (c.readWith fillFrom) = fillBody d c a := by
  rw [fillPart,Node.readWith_node,hk]
  rfl

theorem fillPart_field (hk : c.kind = .fieldDecl ∨ c.kind = .constantDecl) :
    fillPart d a (c.readWith fillFrom) = (partOf c).map (received d a) := by
  rw [partOf_field hk,map_map]
  rcases hk with hk | hk <;>
    simp [fillPart,Node.readWith_node,hk,received_header,Body.addTo_fields]

theorem fillPart_method (hk : c.kind = .methodDecl) :
    fillPart d a (c.readWith fillFrom) = (partOf c).map (received d a) := by
  rw [fillPart,Node.readWith_node,hk,partOf_method hk,map_map]
  simp [received_header,Body.addTo_methods]

theorem fillPart_constructor (hk : c.kind = .constructorDecl) :
    fillPart d a (c.readWith fillFrom) = (partOf c).map (received d a) := by
  rw [fillPart,Node.readWith_node,hk,partOf_constructor hk,map_map]
  simp [received_header,Body.addTo_constructors]

theorem fillPart_of_not_member (hc : c.kind.isMember = false) :
    fillPart d a (c.readWith fillFrom) =
      if c.declaresType then declare c a >>= fun made => pure (made.2.attachMember d made.1)
      else .ok a := by
  rw [fillPart,Node.readWith_node]
  split
  all_goals first | rfl | simp_all [Kind.isMember]

end Parts

theorem fillPart_eq {c : Node} (hinner : c.kind = .enumBodyDecls → FillsAs c)
    (hbody : ∀ b, c.child? .body = some b → FillsAs b) {d : Nat} {a : Assembly}
    (hd : d < a.declarations.length) :
    fillPart d a (c.readWith fillFrom) = (partOf c).map (received d a) := by
  cases hmember : c.kind.isMember with
  | true =>
    unfold Kind.isMember at hmember
    split at hmember <;> rename_i hk
    · exact fillPart_constant hk
    · rw [fillPart_enumBody hk,partOf_enumBody hk]
      exact hinner hk d a hd
    · exact fillPart_field (.inl hk)
    · exact fillPart_field (.inr hk)
    · exact fillPart_method hk
    · exact fillPart_constructor hk
    · cases hmember
  | false =>
    rw [fillPart_of_not_member hmember]
    cases hf : formOf? c.kind with
    | none =>
      rw [if_neg (by simp [Node.declaresType,hf]),partOf_idle hmember hf]
      exact congrArg Except.ok (received_empty d a).symm
    | some form =>
      have hc : c.declaresType = true := by simp [Node.declaresType,hf]
      rw [if_pos hc,declare_eq hc hbody,map_bind,partOf_declaration hf,← typeOf_eq hf,map_map]
      simp only [received_members,Assembly.addForest]
      cases typeOf c <;> rfl

theorem fillsAs (n : Node) : FillsAs n := by
  induction n using Node.size_induction with
  | step n ih =>
    intro d a hd
    rw [fillBody_eq,bodyOf_eq]
    have hstep : ∀ c ∈ n.namedChildren, ∀ b : Assembly, d < b.declarations.length →
        fillPart d b (c.readWith fillFrom) = (partOf c).map (received d b) := by
      intro c hc b hb
      have hlt := Node.sizeOf_lt_of_mem_children (Node.mem_children_of_named hc)
      refine fillPart_eq (fun _ => ih c hlt) (fun e he => ih e ?_) hb
      exact Nat.lt_trans (Node.sizeOf_lt_of_mem_children (Node.mem_children_of_role he)) hlt
    rw [foldlM_eq_allOk hstep (fun b part hb => length_received hb part) hd]
    cases allOk (n.namedChildren.map partOf) with
    | error e => rfl
    | ok parts =>
      have hparts := foldl_received hd parts {}
      rw [received_empty] at hparts
      exact congrArg Except.ok hparts

end Filling

section Units

def packageFrom (ns : List Node) (package : String) : String :=
  (((ns.filter (·.kind = .packageDecl)).filterMap nameNode?).getLast?.map Node.text).getD package

def importsFrom (ns : List Node) : List Import :=
  (ns.filter (·.kind = .importDecl)).filterMap importOf?

-- The package and the imports that nodes give to the unit of an assembly.
def named (ns : List Node) (a : Assembly) : Assembly :=
  { a with
    units := a.units.modify 0 fun u =>
      { u with package := packageFrom ns u.package,imports := u.imports ++ importsFrom ns } }

theorem named_cons_package {n : Node} (hn : n.kind = .packageDecl) (ns : List Node) (a : Assembly) :
    named (n :: ns) a = named ns (match nameNode? n with
      | none => a
      | some name => a.setPackage 0 name.text) := by
  have himports : importsFrom (n :: ns) = importsFrom ns := by simp [importsFrom,hn]
  cases hname : nameNode? n with
  | none =>
    have hpackage : packageFrom (n :: ns) = packageFrom ns := by
      funext package
      simp [packageFrom,hn,hname]
    rw [named,hpackage,himports]
    rfl
  | some name =>
    have hpackage : ∀ package, packageFrom (n :: ns) package = packageFrom ns name.text := by
      intro package
      rw [packageFrom,List.filter_cons_of_pos (by simpa using hn),List.filterMap_cons_some hname,
        List.getLast?_cons,packageFrom]
      cases ((ns.filter (·.kind = .packageDecl)).filterMap nameNode?).getLast? <;> rfl
    simp only [named,himports,hpackage,Assembly.setPackage,List.modify_modify_eq]
    rfl

theorem named_cons_import {n : Node} (hn : n.kind = .importDecl) (ns : List Node) (a : Assembly) :
    named (n :: ns) a = named ns (match importOf? n with
      | none => a
      | some i => a.addImport 0 i) := by
  have hpackage : packageFrom (n :: ns) = packageFrom ns := by
    funext package
    simp [packageFrom,hn]
  cases himport : importOf? n with
  | none =>
    have himports : importsFrom (n :: ns) = importsFrom ns := by simp [importsFrom,hn,himport]
    rw [named,hpackage,himports]
    rfl
  | some i =>
    have himports : importsFrom (n :: ns) = i :: importsFrom ns := by simp [importsFrom,hn,himport]
    simp [named,hpackage,himports,Assembly.addImport,List.modify_modify_eq,Function.comp_def]

theorem named_cons {n : Node} (hn : n.kind ≠ .packageDecl ∧ n.kind ≠ .importDecl) (ns : List Node)
    (a : Assembly) : named (n :: ns) a = named ns a := by
  simp [named,packageFrom,importsFrom,hn]

theorem named_attachType (ns : List Node) (t : Declaration) (a : Assembly) :
    named ns ((Assembly.addTree t a).attachType 0 a.declarations.length) =
      (Assembly.addTree t (named ns a)).attachType 0 (named ns a).declarations.length := by
  simp only [Assembly.addTree_eq,named,Assembly.attachType,List.modify_modify_eq]
  rfl

theorem foldlM_unitPart (ns : List Node) (a : Assembly) :
    ns.foldlM unitPart a =
      (allOk ((ns.filter Node.declaresType).map typeOf)).map fun ts =>
        Assembly.addTypes 0 ts (named ns a) := by
  induction ns generalizing a with
  | nil =>
    have hnamed : named [] a = a := by
      simp only [named,packageFrom,importsFrom,List.filter_nil,List.filterMap_nil,List.append_nil]
      exact congrArg (Assembly.mk a.declarations) (List.modify_id 0 a.units)
    exact congrArg Except.ok hnamed.symm
  | cons n ns ih =>
    rw [List.foldlM_cons]
    by_cases hpackage : n.kind = .packageDecl
    · have hn : ¬ n.declaresType = true := by simp [Node.declaresType,formOf?,hpackage]
      rw [named_cons_package hpackage,List.filter_cons_of_neg hn,← ih,unitPart,hpackage]
      cases nameNode? n <;> rfl
    by_cases himport : n.kind = .importDecl
    · have hn : ¬ n.declaresType = true := by simp [Node.declaresType,formOf?,himport]
      rw [named_cons_import himport,List.filter_cons_of_neg hn,← ih,unitPart,himport]
      cases importOf? n <;> rfl
    have hpart : unitPart a n =
        if n.declaresType then declare n a >>= fun made => pure (made.2.attachType 0 made.1)
        else .ok a := by
      rw [unitPart]
      split
      · exact absurd ‹_› hpackage
      · exact absurd ‹_› himport
      · rfl
    rw [hpart,named_cons ⟨hpackage,himport⟩]
    by_cases hn : n.declaresType = true
    · rw [if_pos hn,declare_eq hn (fun b _ => fillsAs b),map_bind,List.filter_cons_of_pos hn,List.map_cons,
        allOk]
      cases typeOf n with
      | error e => rfl
      | ok t =>
        change ns.foldlM unitPart ((Assembly.addTree t a).attachType 0 a.declarations.length) = _
        rw [ih,named_attachType]
        cases allOk ((ns.filter Node.declaresType).map typeOf) <;> rfl
    · rw [if_neg hn,List.filter_cons_of_neg hn,← ih]
      rfl

theorem assemblyOf_eq (path : String) (root : Node) :
    assemblyOf root = (unitOf path root).map SourceUnit.assembled := by
  rw [assemblyOf,foldlM_unitPart,unitOf]
  cases allOk ((root.namedChildren.filter Node.declaresType).map typeOf) with
  | error e => rfl
  | ok ts => rfl

end Units

end Java

end ClassDiagram
