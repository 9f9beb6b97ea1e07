import ClassDiagram.Proofs.Assembly.Layout
import ClassDiagram.Proofs.Assembly.Preorder
import ClassDiagram.Proofs.Diagram.Containment
import ClassDiagram.Proofs.Session.History

/-!
Assemblies that grow in order. When each declaration is attached at most once, to something that exists, and
never to itself or to what is below it, then in whatever order the pieces come a container lists just the
declarations whose parent it is, each of them once and in the order of their attachment, and the parents of a
declaration come to an end. So every unit is well-formed at every moment, and walking and drawing it succeed.
-/

namespace ClassDiagram

namespace Assembly

variable {a b : Assembly} {k : Container} {child d p u : Nat}

inductive Below (a : Assembly) (d : Nat) : Nat → Prop
  | self : Below a d d
  | member {e x : Nat} : Below a d e → x ∈ a.listed (.declaration e) → Below a d x

theorem Below.mem_of_closed (among : List Nat) {x : Nat}
    (hclosed : ∀ e ∈ among, ∀ x ∈ a.listed (.declaration e), x ∈ among) (hd : d ∈ among)
    (h : Below a d x) : x ∈ among := by
  induction h with
  | self => exact hd
  | member _ hx ih => exact hclosed _ ih _ hx

structure Forest (a : Assembly) : Prop where
  linked : Linked a
  grounded : ∀ d, ∃ es top, Ascent a d es top

theorem forest_empty : Forest {} := ⟨linked_empty,fun _ => ⟨[],none,.detached rfl⟩⟩

theorem Linked.below_of_ascent (h : Linked a) {es : List Nat} {top : Option Nat}
    (ha : Ascent a d es top) : ∀ e ∈ d :: es, Below a e d := by
  induction ha with
  | detached _ => simpa using Below.self
  | unit _ => simpa using Below.self
  | @declaration d e es top hp _ ih =>
    intro x hx
    rcases List.mem_cons.mp hx with rfl | hx
    · exact .self
    · exact .member (ih x hx) ((h.listed_iff _ _).mpr hp)

theorem Linked.lt_of_listed (h : Linked a) (hp : a.parent? child = some (.declaration d)) :
    d < a.declarations.length := by
  have hlisted := (h.listed_iff _ _).mpr hp
  by_cases hd : d < a.declarations.length
  · exact hd
  · rw [listed,List.getElem?_eq_none (Nat.not_lt.mp hd)] at hlisted
    cases hlisted

theorem Linked.lt_of_ascent (h : Linked a) {es : List Nat} {top : Option Nat}
    (ha : Ascent a d es top) (hd : d < a.declarations.length) :
    ∀ e ∈ d :: es, e < a.declarations.length := by
  induction ha with
  | detached _ => simpa using hd
  | unit _ => simpa using hd
  | declaration hp _ ih =>
    intro x hx
    rcases List.mem_cons.mp hx with rfl | hx
    · exact hd
    · exact ih (h.lt_of_listed hp) x hx

theorem Ascent.same {es : List Nat} {top : Option Nat} (ha : Ascent a d es top)
    (hparent : ∀ e ∈ d :: es, b.parent? e = a.parent? e) : Ascent b d es top := by
  induction ha with
  | @detached d hp => exact .detached (by rw [hparent d List.mem_cons_self,hp])
  | @unit d u hp => exact .unit (by rw [hparent d List.mem_cons_self,hp])
  | @declaration d e es top hp _ ih =>
    refine .declaration (by rw [hparent d List.mem_cons_self,hp]) (ih fun x hx => ?_)
    exact hparent x (List.mem_cons_of_mem _ hx)

-- Only the chains through the child change: there they go on with the chain of the new parent.
theorem grounded_attach (h : ∀ d, ∃ es top, Ascent a d es top)
    (hparent : ∀ e, b.parent? e = if e = child then some k else a.parent? e)
    (hchild : ∃ es top, Ascent b child es top) (d : Nat) : ∃ es top, Ascent b d es top := by
  obtain ⟨es,top,ha⟩ := h d
  induction ha with
  | @detached d hp =>
    by_cases hd : d = child
    · exact hd ▸ hchild
    · exact ⟨[],none,.detached (by rw [hparent,if_neg hd,hp])⟩
  | @unit d u hp =>
    by_cases hd : d = child
    · exact hd ▸ hchild
    · exact ⟨[],some u,.unit (by rw [hparent,if_neg hd,hp])⟩
  | @declaration d e es top hp _ ih =>
    by_cases hd : d = child
    · exact hd ▸ hchild
    · obtain ⟨es',top',he⟩ := ih
      exact ⟨e :: es',top',.declaration (by rw [hparent,if_neg hd,hp]) he⟩

theorem layoutAmong_parent {start i : Nat} {ds : List Declaration} {n : AssembledDecl}
    (h : (layoutAmong k start ds)[i]? = some n) :
    n.parent = some k ∨ ∃ j, start ≤ j ∧ j < start + i ∧ n.parent = some (.declaration j) := by
  induction ds using Declaration.forest_induction generalizing k start i with
  | nil => simp [layoutAmong] at h
  | cons header members ds ihm ihs =>
    rw [layoutAmong_cons] at h
    cases i with
    | zero =>
      obtain rfl := Option.some.inj h
      exact .inl rfl
    | succ i =>
      rw [List.getElem?_cons_succ,List.getElem?_append,layoutAmong_length] at h
      split at h
      · rcases ihm h with hp | ⟨j,hlow,hhigh,hp⟩
        · exact .inr ⟨start,by omega,by omega,hp⟩
        · exact .inr ⟨j,by omega,by omega,hp⟩
      · rcases ihs h with hp | ⟨j,hlow,hhigh,hp⟩
        · exact .inl hp
        · exact .inr ⟨j,by omega,by omega,hp⟩

theorem declaration_addTree_old (t : Declaration) (hd : d < a.declarations.length) :
    (addTree t a).declarations[d]? = a.declarations[d]? := by
  rw [addTree_eq,List.getElem?_append_left hd]

theorem parent?_addTree_new (t : Declaration) (hd : a.declarations.length ≤ d) :
    (addTree t a).parent? d = none ∨
      ∃ e, e < d ∧ a.declarations.length ≤ e ∧ (addTree t a).parent? d = some (.declaration e) := by
  rw [parent?,addTree_eq,List.getElem?_append_right hd]
  cases hi : d - a.declarations.length with
  | zero => exact .inl rfl
  | succ i =>
    rw [List.getElem?_cons_succ]
    cases hn : (layoutAmong (.declaration a.declarations.length) (a.declarations.length + 1)
        t.members)[i]? with
    | none => exact .inl rfl
    | some n =>
      rcases layoutAmong_parent hn with hp | ⟨j,hlow,hhigh,hp⟩
      · exact .inr ⟨a.declarations.length,by omega,Nat.le_refl _,hp⟩
      · exact .inr ⟨j,by omega,by omega,hp⟩

theorem stands_addTree (t : Declaration) (a : Assembly) :
    Stands (addTree t a) a.declarations.length t := by
  have hlayout : (addTree t a).declarations =
      a.declarations ++ [{ header := t.toHeader
                           members := rootsFrom (a.declarations.length + 1) t.members }] ++
        layoutAmong (.declaration a.declarations.length) (a.declarations.length + 1) t.members := by
    simp [addTree_eq]
  have hroot : (addTree t a).declarations[a.declarations.length]? =
      some { header := t.toHeader,members := rootsFrom (a.declarations.length + 1) t.members } := by
    simp [hlayout]
  have hbelow : LaidOut (addTree t a) (.declaration a.declarations.length)
      (a.declarations.length + 1) t.members := by
    refine ⟨_,[],?_,by rw [hlayout,List.append_nil]⟩
    simp
  exact stands_iff.mpr ⟨_,hroot,rfl,hbelow.standAll⟩

namespace Forest

theorem attachMember (h : Forest a) (hp : p < a.declarations.length)
    (hc : child < a.declarations.length) (hfree : a.parent? child = none) (hnot : ¬ Below a child p) :
    Forest (a.attachMember p child) := by
  have hparent := parent?_attachMember hc p
  refine ⟨h.linked.attachMember hp hc hfree,grounded_attach h.grounded hparent ?_⟩
  obtain ⟨es,top,ha⟩ := h.grounded p
  have hpath : child ∉ p :: es := fun hin => hnot (h.linked.below_of_ascent ha child hin)
  have hup : Ascent (a.attachMember p child) p es top := by
    refine ha.same fun e he => ?_
    have hne : e ≠ child := fun heq => hpath (heq ▸ he)
    rw [hparent,if_neg hne]
  exact ⟨p :: es,top,.declaration (by rw [hparent,if_pos rfl]) hup⟩

theorem attachType (h : Forest a) (hu : u < a.units.length) (hc : child < a.declarations.length)
    (hfree : a.parent? child = none) : Forest (a.attachType u child) := by
  have hparent := parent?_attachType hc u
  refine ⟨h.linked.attachType hu hc hfree,grounded_attach h.grounded hparent ?_⟩
  exact ⟨[],some u,.unit (by rw [hparent,if_pos rfl])⟩

theorem addUnit (h : Forest a) (package : String) (imports : List Import) :
    Forest (a.addUnit package imports) := by
  refine ⟨h.linked.addUnit package imports,fun d => ?_⟩
  obtain ⟨es,top,ha⟩ := h.grounded d
  exact ⟨es,top,ha.same fun _ _ => rfl⟩

theorem addTree (h : Forest a) (t : Declaration) : Forest (addTree t a) := by
  refine ⟨h.linked.addTree t,fun d => ?_⟩
  induction d using Nat.strongRecOn with
  | ind d ih =>
    by_cases hd : d < a.declarations.length
    · obtain ⟨es,top,ha⟩ := h.grounded d
      refine ⟨es,top,ha.same fun e he => ?_⟩
      have hold : e < a.declarations.length := h.linked.lt_of_ascent ha hd e he
      rw [parent?,parent?,declaration_addTree_old t hold]
    · rcases parent?_addTree_new t (Nat.not_lt.mp hd) with hp | ⟨e,he,_,hp⟩
      · exact ⟨[],none,.detached hp⟩
      · obtain ⟨es,top,ha⟩ := ih e he
        exact ⟨e :: es,top,.declaration hp ha⟩

theorem wellFormed (h : Forest a) (hu : u < a.units.length) : a.WellFormed u :=
  ⟨hu,fun k _ _ d hd => (h.linked.listed_iff k d).mp hd⟩

end Forest

theorem Linked.chain_iff_ascent (h : Linked a) {es : List Nat} :
    Chain a u (.declaration d) (d :: es) ↔ Ascent a d es (some u) := by
  constructor
  · intro hc
    induction es generalizing d with
    | nil =>
      cases hc with
      | declaration hk hd =>
        cases hk
        exact .unit ((h.listed_iff _ _).mp hd)
    | cons e es ih =>
      cases hc with
      | declaration hk hd =>
        cases hk with
        | declaration hk he => exact .declaration ((h.listed_iff _ _).mp hd) (ih (.declaration hk he))
  · intro ha
    generalize htop : some u = top at ha
    induction ha with
    | detached _ => cases htop
    | unit hp =>
      cases htop
      exact .declaration .unit ((h.listed_iff _ _).mpr hp)
    | declaration hp _ ih => exact .declaration (ih htop) ((h.listed_iff _ _).mpr hp)

structure WalkedInOrder (a : Assembly) (u : Nat) : Prop where
  ends : Walks a (a.listed (.unit u)) (a.walk u)
  once : (a.walk u).Nodup
  exactly : ∀ d, d ∈ a.walk u ↔ ∃ es, Ascent a d es (some u)
  containersFirst : ∀ d ∈ a.walk u, ∀ x ∈ a.listed (.declaration d), [d,x].Sublist (a.walk u)
  typesInOrder : (a.listed (.unit u)).Sublist (a.walk u)
  membersInOrder : ∀ d ∈ a.walk u, (a.listed (.declaration d)).Sublist (a.walk u)

theorem Forest.walkedInOrder (h : Forest a) (hu : u < a.units.length) : a.WalkedInOrder u := by
  have w := h.wellFormed hu
  refine ⟨w.walks,?_,fun d => ?_,fun d hd x hx => ?_,w.listed_sublist .unit,fun d hd => ?_⟩
  · rw [walk_eq_content]
    exact w.nodup_content h.linked.nodup .unit
  · rw [w.mem_walk_iff]
    exact exists_congr fun es => h.linked.chain_iff_ascent
  · obtain ⟨_,hc⟩ := w.mem_walk_iff.mp hd
    cases hc with
    | declaration hk hd => exact w.member_after_container hk hd hx
  · obtain ⟨_,hc⟩ := w.mem_walk_iff.mp hd
    exact w.listed_sublist hc

end Assembly

namespace Step

open Assembly

def assembled (a : Assembly) : Step → Assembly
  | .declare t => addTree t a
  | .openUnit package imports => a.addUnit package imports
  | .attachMember parent child => a.attachMember parent child
  | .attachType unit child => a.attachType unit child
  | _ => a

-- What is attached exists, is attached to something that exists, was not attached before, and is not put
-- below itself.
def Orderly (a : Assembly) : Step → Prop
  | .attachMember parent child =>
      parent < a.declarations.length ∧ child < a.declarations.length ∧
        (∀ k, child ∉ a.listed k) ∧ ¬ a.Below child parent
  | .attachType unit child =>
      unit < a.units.length ∧ child < a.declarations.length ∧ ∀ k, child ∉ a.listed k
  | _ => True

end Step

namespace Assembly

theorem Linked.unlisted_iff {a : Assembly} (h : Linked a) {d : Nat} :
    (∀ k, d ∉ a.listed k) ↔ a.parent? d = none := by
  simp only [h.listed_iff]
  cases a.parent? d <;> simp

theorem Forest.assembled {a : Assembly} (h : Forest a) {step : Step} (ho : step.Orderly a) :
    Forest (step.assembled a) := by
  cases step with
  | declare t => exact h.addTree t
  | openUnit package imports => exact h.addUnit package imports
  | attachMember parent child =>
    obtain ⟨hp,hc,hfree,hnot⟩ := ho
    exact h.attachMember hp hc (h.linked.unlisted_iff.mp hfree) hnot
  | attachType unit child =>
    obtain ⟨hu,hc,hfree⟩ := ho
    exact h.attachType hu hc (h.linked.unlisted_iff.mp hfree)
  | _ => exact h

theorem listed_addTree_prefix (t : Declaration) (a : Assembly) (k : Container) :
    a.listed k <+: (addTree t a).listed k := by
  cases k with
  | unit u => simp [listed,addTree_eq]
  | declaration d =>
    by_cases hd : d < a.declarations.length
    · have hsame : (addTree t a).listed (.declaration d) = a.listed (.declaration d) := by
        rw [listed,listed,declaration_addTree_old t hd]
      exact hsame ▸ List.prefix_rfl
    · rw [listed,List.getElem?_eq_none (Nat.not_lt.mp hd)]
      exact List.nil_prefix

theorem listed_assembled_prefix {a : Assembly} {step : Step} (ho : step.Orderly a) (k : Container) :
    a.listed k <+: (step.assembled a).listed k := by
  cases step with
  | declare t => exact listed_addTree_prefix t a k
  | openUnit package imports =>
    have hsame : ((Step.openUnit package imports).assembled a).listed k = a.listed k := by
      rw [Step.assembled,listed_addUnit]
    exact hsame ▸ List.prefix_rfl
  | attachMember parent child =>
    rw [Step.assembled,listed_attachMember ho.1]
    split
    · exact List.prefix_append _ _
    · exact List.prefix_rfl
  | attachType unit child =>
    rw [Step.assembled,listed_attachType ho.1]
    split
    · exact List.prefix_append _ _
    · exact List.prefix_rfl
  | _ => exact List.prefix_rfl

end Assembly

namespace Session

open Assembly

theorem withCanvas_assembly (s : Session) (result : Canvas × Option PlacementError) :
    (s.withCanvas result).1.assembly = s.assembly := by
  obtain ⟨c,e⟩ := result
  cases e <;> rfl

theorem perform_assembly (s : Session) (step : Step) :
    (s.perform step).1.assembly = step.assembled s.assembly := by
  cases step with
  | buildDocument unit package => exact s.withCanvas_assembly _
  | visitType d surface =>
    cases surface with
    | document page => exact s.withCanvas_assembly _
    | entity i => rfl
  | visitMember m surface =>
    cases surface with
    | document page => rfl
    | entity i => exact s.withCanvas_assembly _
  | compare a b =>
    rw [perform]
    split <;> rfl
  | _ => rfl

def Orderly : Session → List Step → Prop
  | _, [] => True
  | s, step :: steps => step.Orderly s.assembly ∧ Orderly (s.perform step).1 steps

theorem after_forest {s : Session} (h : s.assembly.Forest) {steps : List Step}
    (ho : s.Orderly steps) : (s.after steps).assembly.Forest := by
  induction steps generalizing s with
  | nil => exact h
  | cons step steps ih =>
    refine ih ?_ ho.2
    rw [perform_assembly]
    exact h.assembled ho.1

theorem after_listed_prefix {s : Session} {steps : List Step} (ho : s.Orderly steps) (k : Container) :
    s.assembly.listed k <+: (s.after steps).assembly.listed k := by
  induction steps generalizing s with
  | nil => exact List.prefix_rfl
  | cons step steps ih =>
    have hstep := listed_assembled_prefix ho.1 k
    rw [← perform_assembly] at hstep
    exact hstep.trans (ih ho.2)

theorem draws_in_order {s : Session} (h : s.assembly.Forest) {u : Nat}
    (hu : u < s.assembly.units.length) (package : Option String) :
    ∃ doc, s.Draws u package doc ∧ List.Forall₂ s.assembly.DrawsAs (s.assembly.walk u) doc.types := by
  obtain ⟨unit,r,hdraws⟩ := draws_of_wellFormed (h.wellFormed hu)
  exact ⟨_,hdraws s package rfl,r.draws s.viewpoint.options package⟩

end Session

theorem orderly_attachment_keeps_a_forest (v : Viewpoint) (steps : List Step)
    (h : Session.Orderly { viewpoint := v } steps) :
    let s := Session.after { viewpoint := v } steps
    s.assembly.Linked ∧ (∀ d, ∃ es top, s.assembly.Ascent d es top) ∧
    (∀ u < s.assembly.units.length, s.assembly.WalkedInOrder u ∧
      ∀ package, ∃ doc, s.Draws u package doc ∧
        List.Forall₂ s.assembly.DrawsAs (s.assembly.walk u) doc.types) ∧
    (∀ later, s.Orderly later → ∀ k,
      s.assembly.listed k <+: (s.after later).assembly.listed k) ∧
    (∀ t, (s.perform (.declare t)).1.assembly.Stands s.assembly.declarations.length t) ∧
    (∀ p child, Step.Orderly s.assembly (.attachMember p child) →
      (s.perform (.attachMember p child)).1.assembly.listed (.declaration p) =
        s.assembly.listed (.declaration p) ++ [child]) ∧
    ∀ u child, Step.Orderly s.assembly (.attachType u child) →
      (s.perform (.attachType u child)).1.assembly.listed (.unit u) =
        s.assembly.listed (.unit u) ++ [child] := by
  intro s
  have hforest : s.assembly.Forest := Session.after_forest Assembly.forest_empty h
  refine ⟨hforest.linked,hforest.grounded,?_,?_,?_,?_,?_⟩
  · intro u hu
    exact ⟨hforest.walkedInOrder hu,Session.draws_in_order hforest hu⟩
  · intro later hlater k
    exact Session.after_listed_prefix hlater k
  · intro t
    exact Assembly.stands_addTree t s.assembly
  · intro p child ho
    exact (Assembly.listed_attachMember ho.1 child _).trans (if_pos rfl)
  · intro u child ho
    exact (Assembly.listed_attachType ho.1 child _).trans (if_pos rfl)

def gathering : List Step :=
  [.declare { form := .enum,name := "Level" },
    .declare { form := .cls,name := "Logger",members := [{ form := .interface,name := "Sink" }] },
    .attachMember 2 0,.openUnit "log" [],.attachType 0 1]

theorem gathering_orderly : Session.Orderly {} gathering := by
  have hfirst : Session.Orderly {} (gathering.take 2) := ⟨trivial,trivial,trivial⟩
  have hlevel := (Session.after_forest Assembly.forest_empty hfirst).linked.unlisted_iff (d := 0)
  have hbelow : ¬ (Session.after {} (gathering.take 2)).assembly.Below 0 2 := fun h =>
    absurd (h.mem_of_closed [0] (by decide) (by decide)) (by decide)
  have hattach : Step.Orderly (Session.after {} (gathering.take 2)).assembly (.attachMember 2 0) :=
    ⟨by decide,by decide,hlevel.mpr rfl,hbelow⟩
  have hsecond : Session.Orderly {} (gathering.take 4) := ⟨trivial,trivial,hattach,trivial,trivial⟩
  have hlogger := (Session.after_forest Assembly.forest_empty hsecond).linked.unlisted_iff (d := 1)
  exact ⟨trivial,trivial,hattach,trivial,⟨by decide,by decide,hlogger.mpr rfl⟩,trivial⟩

theorem orderly_attachment_keeps_a_forest_gathering :
    Session.Orderly {} gathering ∧
    let s := Session.after {} gathering
    s.assembly.walk 0 = [1,2,0] ∧ s.assembly.WalkedInOrder 0 ∧
      ∃ doc, s.Draws 0 none doc ∧ List.Forall₂ s.assembly.DrawsAs [1,2,0] doc.types := by
  refine ⟨gathering_orderly,?_⟩
  intro s
  have hwalk : s.assembly.walk 0 = [1,2,0] := by rfl
  obtain ⟨_,_,hunits,_⟩ := orderly_attachment_keeps_a_forest {} gathering gathering_orderly
  obtain ⟨hordered,hdraws⟩ := hunits 0 (by decide)
  obtain ⟨doc,hdoc,hall⟩ := hdraws none
  exact ⟨hwalk,hordered,doc,hdoc,hwalk ▸ hall⟩

end ClassDiagram
