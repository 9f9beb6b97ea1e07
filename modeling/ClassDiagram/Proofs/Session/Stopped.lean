import ClassDiagram.Proofs.Assembly.Attachment

/-!
Visits that stop. A declaration may be attached more than once, or to nothing, so that its parents need not
lead through what lists it. A visit meets a declaration before what is nested in it and adds what each one
gives to the document, until it meets one whose parents do not end in a unit. What was added before stays,
and the one that cannot be placed adds nothing.
-/

namespace ClassDiagram

namespace Assembly

variable {a : Assembly} {d x u : Nat} {n : AssembledDecl}

inductive Nested (a : Assembly) : Nat → Prop
  | intro {d : Nat} {n : AssembledDecl} :
      a.declarations[d]? = some n → (∀ m ∈ n.members, Nested a m) → Nested a d

theorem Below.cons {m : Nat} (hm : m ∈ a.listed (.declaration d)) (h : Below a m x) : Below a d x := by
  induction h with
  | self => exact .member .self hm
  | member _ hx ih => exact .member ih hx

theorem Below.front (h : Below a d x) : x = d ∨ ∃ m ∈ a.listed (.declaration d), Below a m x := by
  induction h with
  | self => exact .inl rfl
  | member _ hx ih =>
    rcases ih with rfl | ⟨m,hm,hbelow⟩
    · exact .inr ⟨_,hx,.self⟩
    · exact .inr ⟨m,hm,.member hbelow hx⟩

namespace Nested

theorem not_below_member (h : Nested a d) : ∀ m ∈ a.listed (.declaration d), ¬ Below a m d := by
  induction h with
  | @intro d n hn _ ih =>
    intro m hm hback
    have hmember : m ∈ n.members := listed_declaration hn ▸ hm
    rcases hback.front with rfl | ⟨m',hm',hback⟩
    · exact ih d hmember d hm .self
    · exact ih m hmember m' hm' (.member hback hm)

-- What stands above a declaration is nowhere below it, so it takes up part of the depth that is left.
theorem reach_stable (h : Nested a d) (above : List Nat) (hnodup : above.Nodup)
    (habove : ∀ x ∈ above, x < a.declarations.length ∧ ¬ Below a d x) (depth other : Nat)
    (hdepth : a.declarations.length ≤ depth + above.length)
    (hother : a.declarations.length ≤ other + above.length) : a.reach depth d = a.reach other d := by
  induction h generalizing above depth other with
  | @intro d n hn hmembers ih =>
    have hnotBelow := (Nested.intro hn hmembers).not_below_member
    rw [listed_declaration hn] at hnotBelow
    have hnew : (d :: above).Nodup :=
      List.nodup_cons.mpr ⟨fun hd => (habove d hd).2 .self,hnodup⟩
    have hd : d < a.declarations.length := (List.getElem?_eq_some_iff.mp hn).1
    have hrange : d :: above ⊆ List.range a.declarations.length := by
      intro x hx
      rcases List.mem_cons.mp hx with rfl | hx
      · exact List.mem_range.mpr hd
      · exact List.mem_range.mpr (habove x hx).1
    have hlength := hnew.length_le_of_subset hrange
    simp only [List.length_cons,List.length_range] at hlength
    obtain ⟨left,rfl⟩ : ∃ left, depth = left + 1 := ⟨depth - 1,by omega⟩
    obtain ⟨right,rfl⟩ : ∃ right, other = right + 1 := ⟨other - 1,by omega⟩
    simp only [reach,hn]
    refine congrArg (d :: ·) (List.flatMap_congr fun m hm => ?_)
    refine ih m hm (d :: above) hnew (fun x hx => ?_) left right (by simp; omega) (by simp; omega)
    rcases List.mem_cons.mp hx with rfl | hx
    · exact ⟨hd,hnotBelow m hm⟩
    · refine ⟨(habove x hx).1,fun hbelow => (habove x hx).2 (hbelow.cons ?_)⟩
      rwa [listed_declaration hn]

theorem preorder_eq (h : Nested a d) (hn : a.declarations[d]? = some n) :
    a.preorder d = d :: n.members.flatMap a.preorder := by
  have hnotBelow := h.not_below_member
  rw [listed_declaration hn] at hnotBelow
  have hd : d < a.declarations.length := (List.getElem?_eq_some_iff.mp hn).1
  obtain ⟨left,hleft⟩ : ∃ left, a.declarations.length = left + 1 := ⟨a.declarations.length - 1,by omega⟩
  rw [preorder,hleft,reach,hn]
  refine congrArg (d :: ·) (List.flatMap_congr fun m hm => ?_)
  cases h with
  | intro hn' hmembers =>
    obtain rfl := Option.some.inj (hn.symm.trans hn')
    refine (hmembers m hm).reach_stable [d] (List.nodup_cons.mpr ⟨by simp,List.nodup_nil⟩) ?_ _ _
      (by simp [hleft]) (by simp)
    simpa using ⟨hd,hnotBelow m hm⟩

theorem walks (h : Nested a d) : ∀ rest met, Walks a rest met → Walks a (d :: rest) (a.preorder d ++ met) := by
  induction h with
  | @intro d n hn hmembers ih =>
    intro rest met hrest
    rw [(Nested.intro hn hmembers).preorder_eq hn,List.cons_append]
    exact .visit hn (walks_flatMap ih hrest)

end Nested

theorem Walks.exists_declaration {pending met : List Nat} (h : Walks a pending met) :
    ∀ e ∈ met, ∃ n, a.declarations[e]? = some n := by
  induction h with
  | done => simp
  | visit hn _ ih => exact List.forall_mem_cons.mpr ⟨⟨_,hn⟩,ih⟩

def EndsInUnit (a : Assembly) (d : Nat) : Prop := ∃ es u, Ascent a d es (some u) ∧ u < a.units.length

theorem Ascent.climb_none {es : List Nat} {top : Option Nat} (h : Ascent a d es top)
    (htop : ∀ u ∈ top, a.units[u]? = none) (depth : Nat) (path : String) :
    a.climb depth (.declaration d) path = none := by
  induction h generalizing depth path with
  | @detached d hp =>
    cases depth with
    | zero => rfl
    | succ depth =>
      rw [climb]
      cases hn : a.declarations[d]? with
      | none => rfl
      | some n =>
        have hparent : n.parent = none := by simpa [parent?,hn] using hp
        simp only [hparent]
  | @unit d u hp =>
    cases depth with
    | zero => rfl
    | succ depth =>
      obtain ⟨n,hn,hp⟩ := parent?_eq_some.mp hp
      rw [climb,hn]
      simp only [hp,climb,htop u rfl,Option.map_none]
  | @declaration d e es top hp _ ih =>
    cases depth with
    | zero => rfl
    | succ depth =>
      obtain ⟨n,hn,hp⟩ := parent?_eq_some.mp hp
      rw [climb,hn]
      simp only [hp]
      exact ih htop depth _

def refusal (n : AssembledDecl) : PlacementError :=
  if n.parent = none then .noParent n.header.name else .detached n.header.name

theorem refusal_message (n : AssembledDecl) :
    (refusal n).message = "type declaration " ++ Text.quoted n.header.name ++
      if n.parent = none then " has no parent" else " is detached from its compilation unit" := by
  rw [refusal]
  split <;> rfl

theorem place_refused (hup : ∃ es top, Ascent a d es top) (hends : ¬ a.EndsInUnit d)
    (hn : a.declarations[d]? = some n) : a.place n = .error (refusal n) := by
  obtain ⟨es,top,h⟩ := hup
  have hparent : a.parent? d = n.parent := by simp [parent?,hn]
  have htop : ∀ u ∈ top, a.units[u]? = none := by
    rintro u rfl
    exact List.getElem?_eq_none (Nat.not_lt.mp fun hu => hends ⟨es,u,h,hu⟩)
  rw [place,refusal,← hparent]
  cases h with
  | detached hp => rw [hp,if_pos rfl]
  | unit hp =>
    rw [hp]
    simp [climb,htop _ rfl]
  | declaration hp hup =>
    rw [hp]
    simp [hup.climb_none htop]

-- What a declaration adds to a document: its entity and its links, under the path of its parents and with
-- the imports of the unit that they end in.
def Gives (v : Viewpoint) (a : Assembly) (d : Nat) (part : Entity × List Relationship) : Prop :=
  ∃ es u m n, Ascent a d es (some u) ∧ a.units[u]? = some m ∧ a.declarations[d]? = some n ∧
    let p : Placement := ⟨a.headersOf es,⟨n.header,[]⟩⟩
    part = (p.entity v.options v.entityPackage m.imports,p.links v.options v.entityPackage m.imports)

theorem EndsInUnit.exists_gives (h : a.EndsInUnit d) (v : Viewpoint) : ∃ part, Gives v a d part := by
  obtain ⟨es,u,hup,hu⟩ := h
  obtain ⟨n,hn⟩ : ∃ n, a.declarations[d]? = some n := ⟨_,List.getElem?_eq_getElem (hup.lt d (by simp))⟩
  exact ⟨_,es,u,_,n,hup,List.getElem?_eq_getElem hu,hn,rfl⟩

end Assembly

-- The declaration that a visit cannot pass, with those that come before it.
structure Assembly.Stops (a : Assembly) (order before : List Nat) (d : Nat) : Prop where
  reached : ∃ after, order = before ++ d :: after
  placed : ∀ x ∈ before, a.EndsInUnit x
  refused : ¬ a.EndsInUnit d

theorem Assembly.Stops.mem {a : Assembly} {order before : List Nat} {d : Nat}
    (h : a.Stops order before d) : d ∈ order := by
  obtain ⟨after,rfl⟩ := h.reached
  simp

theorem Assembly.stops_or_passes (a : Assembly) (order : List Nat) :
    (∀ d ∈ order, a.EndsInUnit d) ∨ ∃ before d, a.Stops order before d := by
  induction order with
  | nil => exact .inl (by simp)
  | cons d order ih =>
    by_cases hd : a.EndsInUnit d
    · rcases ih with hall | ⟨before,e,⟨after,rfl⟩,hbefore,he⟩
      · exact .inl (List.forall_mem_cons.mpr ⟨hd,hall⟩)
      · exact .inr ⟨d :: before,e,⟨after,rfl⟩,List.forall_mem_cons.mpr ⟨hd,hbefore⟩,he⟩
    · exact .inr ⟨[],d,⟨order,rfl⟩,by simp,hd⟩

def Document.ofParts (parts : List (Entity × List Relationship)) : Document :=
  { types := parts.map Prod.fst,relationships := parts.flatMap Prod.snd }

namespace Canvas

def addParts (c : Canvas) (page : Nat) (parts : List (Entity × List Relationship)) : Canvas :=
  { entities := c.entities ++ parts.map fun part => ⟨part.1,some page⟩
    pages := c.pages.modify page fun p =>
      { types := p.types ++ List.range' c.entities.length parts.length
        relationships := p.relationships ++ parts.flatMap Prod.snd } }

theorem addParts_nil (c : Canvas) (page : Nat) : c.addParts page [] = c := by
  have hpages : (c.pages.modify page fun p => p) = c.pages := List.modify_id ..
  simp [addParts,hpages]

theorem addParts_cons (c : Canvas) (page : Nat) (part : Entity × List Relationship)
    (parts : List (Entity × List Relationship)) :
    c.addParts page (part :: parts) =
      ((c.addEntity page part.1).relate page part.2).addParts page parts := by
  simp [addParts,addEntity,relate,List.modify_modify_eq,Function.comp_def,List.range'_succ]

theorem Shows.addParts {c : Canvas} {page : Nat} {doc : Document} (h : c.Shows page doc)
    (parts : List (Entity × List Relationship)) :
    (c.addParts page parts).Shows page (doc.append (.ofParts parts)) := by
  induction parts generalizing c doc with
  | nil => simpa [addParts_nil,Document.ofParts,Document.append] using h
  | cons part parts ih =>
    have hrest := ih (h.extend part.1 part.2)
    rw [← addParts_cons] at hrest
    simpa [Document.ofParts,Document.append,Document.extend] using hrest

theorem visitOne_gives {v : Viewpoint} {a : Assembly} {d : Nat} {part : Entity × List Relationship}
    (h : a.Gives v d part) (page : Nat) (c : Canvas) :
    visitOne v a page d c = .ok ((c.addEntity page part.1).relate page part.2) := by
  obtain ⟨es,u,m,n,hup,hm,hn,rfl⟩ := h
  have hplace : a.Locates m d ⟨a.headersOf es,⟨n.header,[]⟩⟩ := ⟨n,hn,rfl,hup.place_eq hm hn⟩
  exact visitOne_eq v hplace page c

theorem visitEach_gives {v : Viewpoint} {a : Assembly} {ds : List Nat}
    {parts : List (Entity × List Relationship)} (h : List.Forall₂ (a.Gives v) ds parts) (page : Nat)
    (rest : List Nat) (c : Canvas) :
    visitEach v a page (ds ++ rest) c = visitEach v a page rest (c.addParts page parts) := by
  induction h generalizing c with
  | nil => rw [addParts_nil,List.nil_append]
  | cons hd _ ih =>
    rw [List.cons_append,visitEach,visitOne_gives hd,addParts_cons]
    exact ih _

theorem visitOne_refused {v : Viewpoint} {a : Assembly} {d : Nat} {n : AssembledDecl}
    (hup : ∃ es top, a.Ascent d es top) (hends : ¬ a.EndsInUnit d) (hn : a.declarations[d]? = some n)
    (page : Nat) (c : Canvas) : visitOne v a page d c = .error (Assembly.refusal n) := by
  simp only [visitOne,hn,Assembly.place_refused hup hends hn]

theorem exists_parts {a : Assembly} {ds : List Nat} (h : ∀ d ∈ ds, a.EndsInUnit d) (v : Viewpoint) :
    ∃ parts, List.Forall₂ (a.Gives v) ds parts := by
  induction ds with
  | nil => exact ⟨[],.nil⟩
  | cons d ds ih =>
    obtain ⟨hd,hds⟩ := List.forall_mem_cons.mp h
    obtain ⟨part,hpart⟩ := hd.exists_gives v
    obtain ⟨parts,hparts⟩ := ih hds
    exact ⟨part :: parts,.cons hpart hparts⟩

theorem visitEach_passes {a : Assembly} {ds : List Nat} (h : ∀ d ∈ ds, a.EndsInUnit d) (v : Viewpoint)
    (page : Nat) (c : Canvas) :
    ∃ parts, List.Forall₂ (a.Gives v) ds parts ∧
      visitEach v a page ds c = (c.addParts page parts,none) := by
  obtain ⟨parts,hparts⟩ := exists_parts h v
  have hvisit := visitEach_gives hparts page [] c
  rw [List.append_nil] at hvisit
  exact ⟨parts,hparts,hvisit⟩

theorem visitEach_stops {a : Assembly} {order before : List Nat} {d : Nat} {n : AssembledDecl}
    (h : a.Stops order before d) (hup : ∃ es top, a.Ascent d es top) (hn : a.declarations[d]? = some n)
    (v : Viewpoint) (page : Nat) (c : Canvas) :
    ∃ parts, List.Forall₂ (a.Gives v) before parts ∧
      visitEach v a page order c = (c.addParts page parts,some (Assembly.refusal n)) := by
  obtain ⟨⟨after,rfl⟩,hbefore,hd⟩ := h
  obtain ⟨parts,hparts⟩ := exists_parts hbefore v
  refine ⟨parts,hparts,?_⟩
  rw [visitEach_gives hparts,visitEach,visitOne_refused hup hd hn]

end Canvas

namespace Session

variable {s : Session} {d page : Nat} {doc : Document}

-- A session whose document has got what the declarations give, in their order, and in which nothing else
-- is new.
def Extends (s : Session) (page : Nat) (doc : Document) (ds : List Nat) (t : Session) : Prop :=
  ∃ parts, List.Forall₂ (s.assembly.Gives s.viewpoint) ds parts ∧
    t = { s with canvas := s.canvas.addParts page parts } ∧
    t.canvas.documents[page]? = some (doc.append (.ofParts parts))

theorem visitType_passes (hdoc : s.canvas.Shows page doc)
    (h : ∀ e ∈ s.assembly.preorder d, s.assembly.EndsInUnit e) :
    ∃ t, s.perform (.visitType d (.document page)) = (t,.done) ∧
      s.Extends page doc (s.assembly.preorder d) t := by
  obtain ⟨parts,hparts,hvisit⟩ := Canvas.visitEach_passes h s.viewpoint page s.canvas
  refine ⟨_,?_,parts,hparts,rfl,(hdoc.addParts parts).documents⟩
  rw [perform,hvisit,withCanvas]

theorem visitType_stops {before : List Nat} {e : Nat} {n : AssembledDecl}
    (hdoc : s.canvas.Shows page doc) (h : s.assembly.Stops (s.assembly.preorder d) before e)
    (hup : ∃ es top, s.assembly.Ascent e es top) (hn : s.assembly.declarations[e]? = some n) :
    ∃ t, s.perform (.visitType d (.document page)) = (t,.failed (Assembly.refusal n)) ∧
      s.Extends page doc before t := by
  obtain ⟨parts,hparts,hvisit⟩ := Canvas.visitEach_stops h hup hn s.viewpoint page s.canvas
  refine ⟨_,?_,parts,hparts,rfl,(hdoc.addParts parts).documents⟩
  rw [perform,hvisit,withCanvas]

end Session

theorem visit_stops_at_first_detached (s : Session) (d page : Nat) (doc : Document)
    (hnested : s.assembly.Nested d)
    (hparents : ∀ e ∈ s.assembly.preorder d, ∃ es top, s.assembly.Ascent e es top)
    (hdoc : s.canvas.Shows page doc) :
    let order := s.assembly.preorder d
    let visit := s.perform (.visitType d (.document page))
    s.assembly.Walks [d] order ∧
    ((∃ error, visit.2 = .failed error) ↔ ∃ e ∈ order, ¬ s.assembly.EndsInUnit e) ∧
    ((∀ e ∈ order, s.assembly.EndsInUnit e) → visit.2 = .done ∧ s.Extends page doc order visit.1) ∧
    ∀ error, visit.2 = .failed error → ∃ before e n, s.assembly.Stops order before e ∧
      s.Extends page doc before visit.1 ∧ s.assembly.declarations[e]? = some n ∧
      error.message = "type declaration " ++ Text.quoted n.header.name ++
        if n.parent = none then " has no parent" else " is detached from its compilation unit" := by
  intro order visit
  have hwalks := hnested.walks [] [] .done
  rw [List.append_nil] at hwalks
  have hpasses : (∀ e ∈ order, s.assembly.EndsInUnit e) →
      visit.2 = .done ∧ s.Extends page doc order visit.1 := by
    intro hall
    obtain ⟨t,hvisit,hextends⟩ := Session.visitType_passes hdoc hall
    exact ⟨congrArg Prod.snd hvisit,(congrArg Prod.fst hvisit) ▸ hextends⟩
  have hstops : ∀ before e, s.assembly.Stops order before e → ∃ n,
      s.assembly.declarations[e]? = some n ∧ visit.2 = .failed (Assembly.refusal n) ∧
      s.Extends page doc before visit.1 := by
    intro before e hstop
    obtain ⟨n,hn⟩ := hwalks.exists_declaration e hstop.mem
    obtain ⟨t,hvisit,hextends⟩ := Session.visitType_stops hdoc hstop (hparents e hstop.mem) hn
    exact ⟨n,hn,congrArg Prod.snd hvisit,(congrArg Prod.fst hvisit) ▸ hextends⟩
  refine ⟨hwalks,⟨?_,?_⟩,hpasses,fun error herror => ?_⟩
  · rintro ⟨error,herror⟩
    rcases s.assembly.stops_or_passes order with hall | ⟨before,e,hstop⟩
    · rw [(hpasses hall).1] at herror
      cases herror
    · exact ⟨e,hstop.mem,hstop.refused⟩
  · rintro ⟨e,he,hends⟩
    rcases s.assembly.stops_or_passes order with hall | ⟨before,e',hstop⟩
    · exact absurd (hall e he) hends
    · obtain ⟨n,_,hfailed,_⟩ := hstops before e' hstop
      exact ⟨_,hfailed⟩
  · rcases s.assembly.stops_or_passes order with hall | ⟨before,e,hstop⟩
    · rw [(hpasses hall).1] at herror
      cases herror
    · obtain ⟨n,hn,hfailed,hextends⟩ := hstops before e hstop
      obtain rfl : Assembly.refusal n = error := Reply.failed.inj (hfailed.symm.trans herror)
      exact ⟨before,e,n,hstop,hextends,hn,Assembly.refusal_message n⟩

-- `Part` is listed twice by `Frame` and was attached to `Shelf` last; `Lost` hangs on a type without a parent.
def carpentry : List Step :=
  [.declare { form := .cls,name := "Frame" },
    .declare { form := .interface,name := "Part",typeParameters := ["T"]
               implemented := [.named "Item" [] none] },
    .declare { form := .record,name := "Lost" },.declare { form := .cls,name := "Shelf" },
    .declare { form := .cls,name := "Loose" },.openUnit "tools" [],
    .openUnit "store" [{ name := "Item",qualifiedName := "goods.Item" }],.attachType 0 0,.attachType 1 3,
    .attachMember 0 1,.attachMember 0 2,.attachMember 0 1,.attachMember 3 1,.attachMember 4 2,
    .openDocument]

theorem carpentry_parents :
    ∀ e ∈ [0,1,2,1], ∃ es top, (Session.after {} carpentry).assembly.Ascent e es top := by
  have hframe : (Session.after {} carpentry).assembly.Ascent 0 [] (some 0) := .unit rfl
  have hpart : (Session.after {} carpentry).assembly.Ascent 1 [3] (some 1) :=
    .declaration rfl (.unit rfl)
  have hlost : (Session.after {} carpentry).assembly.Ascent 2 [4] none := .declaration rfl (.detached rfl)
  simpa using ⟨⟨_,_,hframe⟩,⟨_,_,hpart⟩,⟨_,_,hlost⟩,_,_,hpart⟩

theorem carpentry_nested : (Session.after {} carpentry).assembly.Nested 0 := by
  have hpart : (Session.after {} carpentry).assembly.Nested 1 :=
    .intro rfl (List.forall_mem_nil (Assembly.Nested _))
  have hlost : (Session.after {} carpentry).assembly.Nested 2 :=
    .intro rfl (List.forall_mem_nil (Assembly.Nested _))
  have hmembers : ∀ m ∈ [1,2,1], (Session.after {} carpentry).assembly.Nested m := by
    simpa using ⟨hpart,hlost,hpart⟩
  exact .intro rfl hmembers

theorem visit_stops_at_first_detached_carpentry :
    let s := Session.after {} carpentry
    let visit := s.perform (.visitType 0 (.document 0))
    s.assembly.Nested 0 ∧ (∀ e ∈ s.assembly.preorder 0, ∃ es top, s.assembly.Ascent e es top) ∧
    s.canvas.Shows 0 {} ∧ s.assembly.preorder 0 = [0,1,2,1] ∧
    visit.2 = .failed (.detached "Lost") ∧
    visit.1.canvas.documents.map (fun doc => doc.types.map Entity.name) = [["Frame","Shelf.Part<T>"]] ∧
    ∃ before e, s.assembly.Stops [0,1,2,1] before e ∧ s.Extends 0 {} before visit.1 := by
  intro s visit
  have horder : s.assembly.preorder 0 = [0,1,2,1] := by rfl
  have hparents : ∀ e ∈ s.assembly.preorder 0, ∃ es top, s.assembly.Ascent e es top :=
    horder ▸ carpentry_parents
  have hdoc : s.canvas.Shows 0 {} := ⟨{},rfl,rfl,rfl⟩
  obtain ⟨_,_,_,hfails⟩ := visit_stops_at_first_detached s 0 0 {} carpentry_nested hparents hdoc
  obtain ⟨before,e,_,hstops,hextends,_⟩ := hfails (.detached "Lost") rfl
  exact ⟨carpentry_nested,hparents,hdoc,horder,rfl,by decide,before,e,horder ▸ hstops,hextends⟩

end ClassDiagram
