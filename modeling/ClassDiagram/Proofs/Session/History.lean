import ClassDiagram.Session
import ClassDiagram.Proofs.Diagram.Reference

/-!
A session only ever adds. Whatever the next step is, and also when it fails on the way, the documents keep
their entities and their relationships and get new ones at the end, and an entity keeps what it is called and
gets new members at the end. A visit to a member reaches one entity and the document of that entity, a visit
to a type reaches no entity that was there before, and a visit under the wrong surface does nothing.
-/

namespace ClassDiagram

section Growing

variable {α : Type} {R : α → α → Prop} {xs ys zs : List α}

def GrowsBy (R : α → α → Prop) (xs ys : List α) : Prop :=
  ∀ (i : Nat) (x : α), xs[i]? = some x → ∃ y, ys[i]? = some y ∧ R x y

theorem growsBy_refl (hr : ∀ x, R x x) (xs : List α) : GrowsBy R xs xs :=
  fun _ x hx => ⟨x,hx,hr x⟩

theorem growsBy_trans (ht : ∀ {x y z}, R x y → R y z → R x z) (h : GrowsBy R xs ys)
    (h' : GrowsBy R ys zs) : GrowsBy R xs zs := by
  intro i x hx
  obtain ⟨y,hy,hxy⟩ := h i x hx
  obtain ⟨z,hz,hyz⟩ := h' i y hy
  exact ⟨z,hz,ht hxy hyz⟩

theorem growsBy_append (hr : ∀ x, R x x) (xs ys : List α) : GrowsBy R xs (xs ++ ys) := by
  intro i x hx
  have hi := (List.getElem?_eq_some_iff.mp hx).1
  exact ⟨x,by rw [List.getElem?_append_left hi,hx],hr x⟩

theorem growsBy_modify (hr : ∀ x, R x x) {i : Nat} {f : α → α}
    (hf : ∀ x, xs[i]? = some x → R x (f x)) : GrowsBy R xs (xs.modify i f) := by
  intro j x hx
  by_cases hij : i = j
  · subst hij
    exact ⟨f x,by simp [hx],hf x hx⟩
  · exact ⟨x,by simp [hij,hx],hr x⟩

end Growing

structure Entity.Grows (e f : Entity) : Prop where
  package : f.package = e.package
  kind : f.kind = e.kind
  name : f.name = e.name
  fields : e.fields <+: f.fields
  methods : e.methods <+: f.methods

structure PlacedEntity.Grows (p q : PlacedEntity) : Prop where
  home : q.home = p.home
  entity : p.entity.Grows q.entity

structure Page.Grows (p q : Page) : Prop where
  types : p.types <+: q.types
  relationships : p.relationships <+: q.relationships

structure Canvas.Grows (c d : Canvas) : Prop where
  entities : GrowsBy PlacedEntity.Grows c.entities d.entities
  pages : GrowsBy Page.Grows c.pages d.pages

theorem Entity.Grows.refl (e : Entity) : e.Grows e :=
  ⟨rfl,rfl,rfl,List.prefix_refl _,List.prefix_refl _⟩

theorem Entity.Grows.trans {e f g : Entity} (h : e.Grows f) (h' : f.Grows g) : e.Grows g :=
  ⟨h'.package.trans h.package,h'.kind.trans h.kind,h'.name.trans h.name,h.fields.trans h'.fields,
    h.methods.trans h'.methods⟩

theorem PlacedEntity.Grows.refl (p : PlacedEntity) : p.Grows p := ⟨rfl,.refl _⟩

theorem PlacedEntity.Grows.trans {p q r : PlacedEntity} (h : p.Grows q) (h' : q.Grows r) : p.Grows r :=
  ⟨h'.home.trans h.home,h.entity.trans h'.entity⟩

theorem Page.Grows.refl (p : Page) : p.Grows p := ⟨List.prefix_refl _,List.prefix_refl _⟩

theorem Page.Grows.trans {p q r : Page} (h : p.Grows q) (h' : q.Grows r) : p.Grows r :=
  ⟨h.types.trans h'.types,h.relationships.trans h'.relationships⟩

theorem Member.record_grows (o : DiagramOptions) (m : Member) (e : Entity) :
    e.Grows (m.record o e).1 := by
  cases m with
  | field d =>
    rw [record,Entity.recordField_eq]
    exact ⟨rfl,rfl,rfl,List.prefix_append _ _,List.prefix_refl _⟩
  | constructor d =>
    rw [record,Entity.recordConstructor_eq]
    exact ⟨rfl,rfl,rfl,List.prefix_refl _,List.prefix_append _ _⟩
  | method d =>
    rw [record,Entity.recordMethod_eq]
    exact ⟨rfl,rfl,rfl,List.prefix_refl _,List.prefix_append _ _⟩
  | constant name => exact ⟨rfl,rfl,rfl,List.prefix_append _ _,List.prefix_refl _⟩
  | component p =>
    rw [record,Entity.recordComponent]
    split
    · exact ⟨rfl,rfl,rfl,List.prefix_append _ _,List.prefix_refl _⟩
    · exact .refl e

namespace Canvas

theorem Grows.refl (c : Canvas) : c.Grows c :=
  ⟨growsBy_refl PlacedEntity.Grows.refl _,growsBy_refl Page.Grows.refl _⟩

theorem Grows.trans {c d e : Canvas} (h : c.Grows d) (h' : d.Grows e) : c.Grows e :=
  ⟨growsBy_trans PlacedEntity.Grows.trans h.entities h'.entities,
    growsBy_trans Page.Grows.trans h.pages h'.pages⟩

theorem addPage_grows (c : Canvas) : c.Grows c.addPage :=
  ⟨growsBy_refl PlacedEntity.Grows.refl _,growsBy_append Page.Grows.refl _ _⟩

theorem addLoose_grows (c : Canvas) (e : Entity) : c.Grows (c.addLoose e) :=
  ⟨growsBy_append PlacedEntity.Grows.refl _ _,growsBy_refl Page.Grows.refl _⟩

theorem relate_grows (c : Canvas) (page : Nat) (links : List Relationship) :
    c.Grows (c.relate page links) :=
  ⟨growsBy_refl PlacedEntity.Grows.refl _,growsBy_modify Page.Grows.refl fun _ _ =>
    ⟨List.prefix_refl _,List.prefix_append _ _⟩⟩

theorem addEntity_grows (c : Canvas) (page : Nat) (e : Entity) : c.Grows (c.addEntity page e) :=
  ⟨growsBy_append PlacedEntity.Grows.refl _ _,growsBy_modify Page.Grows.refl fun _ _ =>
    ⟨List.prefix_append _ _,List.prefix_refl _⟩⟩

theorem setEntity_grows {c : Canvas} {i : Nat} {p : PlacedEntity} {e : Entity}
    (hp : c.entities[i]? = some p) (he : p.entity.Grows e) : c.Grows (c.setEntity i e) := by
  refine ⟨growsBy_modify PlacedEntity.Grows.refl fun q hq => ?_,growsBy_refl Page.Grows.refl _⟩
  rw [hp] at hq
  obtain rfl := Option.some.inj hq
  exact ⟨rfl,he⟩

theorem bindImport_grows (c : Canvas) (i : Nat) (name qualified : String) :
    c.Grows (c.bindImport i name qualified) := by
  rw [bindImport]
  split
  · exact .refl c
  · rename_i p hp
    exact setEntity_grows hp ⟨rfl,rfl,rfl,List.prefix_refl _,List.prefix_refl _⟩

-- What recording a member and visiting declarations can do to a canvas, said once for all that follows.
theorem record_cases (c : Canvas) (i : Nat) (member : Entity → Recorded) :
    (c.record i member).1 = c ∨ ∃ p, c.entities[i]? = some p ∧
      ((c.record i member).1 = c.setEntity i (member p.entity).1 ∨
        ∃ page, p.home = some page ∧ (c.record i member).1 =
          (c.setEntity i (member p.entity).1).relate page (member p.entity).2) := by
  rw [record]
  split
  · exact .inl rfl
  · rename_i p hp
    refine .inr ⟨p,hp,?_⟩
    dsimp only
    split
    · exact .inl rfl
    · split
      · exact .inl rfl
      · rename_i page hpage
        exact .inr ⟨page,hpage,rfl⟩

theorem visitOne_cases {v : Viewpoint} {a : Assembly} {page d : Nat} {c c' : Canvas}
    (h : visitOne v a page d c = .ok c') :
    c' = c ∨ ∃ e links, c' = (c.addEntity page e).relate page links := by
  rw [visitOne] at h
  split at h
  · exact .inl (Except.ok.inj h).symm
  · split at h
    · cases h
    · exact .inr ⟨_,_,(Except.ok.inj h).symm⟩

theorem visitEach_preserves {P : Canvas → Prop} {page : Nat}
    (hP : ∀ c e links, P c → P ((c.addEntity page e).relate page links)) (v : Viewpoint) (a : Assembly)
    (ds : List Nat) {c : Canvas} (h : P c) : P (visitEach v a page ds c).1 := by
  induction ds generalizing c with
  | nil => exact h
  | cons d ds ih =>
    rw [visitEach]
    split
    · exact h
    · rename_i c' hc
      rcases visitOne_cases hc with rfl | ⟨e,links,rfl⟩
      · exact ih h
      · exact ih (hP c e links h)

theorem visitUnit_cases (v : Viewpoint) (a : Assembly) (unit : Nat) (c : Canvas) :
    (visitUnit v a unit c).1 = c ∨
      (visitUnit v a unit c).1 = (visitEach v a c.pages.length (a.walk unit) c.addPage).1 := by
  rw [visitUnit]
  split
  · rename_i hv
    exact .inr (by rw [hv])
  · exact .inl rfl

theorem record_grows (c : Canvas) (i : Nat) {member : Entity → Recorded}
    (hm : ∀ e : Entity, e.Grows (member e).1) : c.Grows (c.record i member).1 := by
  rcases c.record_cases i member with h | ⟨p,hp,h | ⟨page,_,h⟩⟩ <;> rw [h]
  · exact .refl c
  · exact setEntity_grows hp (hm p.entity)
  · exact (setEntity_grows hp (hm p.entity)).trans (relate_grows _ _ _)

theorem visitEach_grows (v : Viewpoint) (a : Assembly) (page : Nat) (ds : List Nat) (c : Canvas) :
    c.Grows (visitEach v a page ds c).1 :=
  visitEach_preserves (fun d e links h => h.trans ((d.addEntity_grows page e).trans
    (relate_grows _ page links))) v a ds (.refl c)

theorem visitUnit_grows (v : Viewpoint) (a : Assembly) (unit : Nat) (c : Canvas) :
    c.Grows (visitUnit v a unit c).1 := by
  rcases visitUnit_cases v a unit c with h | h <;> rw [h]
  · exact .refl c
  · exact c.addPage_grows.trans (visitEach_grows v a c.pages.length (a.walk unit) c.addPage)

def homeOf (c : Canvas) (i : Nat) : Option Nat := c.entities[i]?.bind PlacedEntity.home

structure ChangedAt (c d : Canvas) (i : Nat) : Prop where
  entities : ∀ j, j ≠ i → d.entities[j]? = c.entities[j]?
  pages : ∀ k, c.homeOf i ≠ some k → d.pages[k]? = c.pages[k]?

theorem ChangedAt.refl (c : Canvas) (i : Nat) : c.ChangedAt c i := ⟨fun _ _ => rfl,fun _ _ => rfl⟩

theorem setEntity_changedAt (c : Canvas) (i : Nat) (e : Entity) : c.ChangedAt (c.setEntity i e) i := by
  refine ⟨?_,fun _ _ => rfl⟩
  intro j hj
  simp [setEntity,Ne.symm hj]

theorem record_changedAt (c : Canvas) (i : Nat) (member : Entity → Recorded) :
    c.ChangedAt (c.record i member).1 i := by
  rcases c.record_cases i member with h | ⟨p,hp,h | ⟨page,hpage,h⟩⟩ <;> rw [h]
  · exact .refl c i
  · exact c.setEntity_changedAt i _
  · refine ⟨(c.setEntity_changedAt i (member p.entity).1).entities,?_⟩
    intro k hk
    have hne : page ≠ k := by
      rintro rfl
      exact hk (by simp [homeOf,hp,hpage])
    simp [relate,setEntity,hne]

theorem visitEach_keeps (v : Viewpoint) (a : Assembly) (page : Nat) (ds : List Nat) (c : Canvas) :
    c.entities <+: (visitEach v a page ds c).1.entities ∧
      ∀ k, k ≠ page → (visitEach v a page ds c).1.pages[k]? = c.pages[k]? := by
  refine visitEach_preserves (P := fun d => c.entities <+: d.entities ∧
    ∀ k, k ≠ page → d.pages[k]? = c.pages[k]?) ?_ v a ds ⟨List.prefix_refl _,fun _ _ => rfl⟩
  rintro d e links ⟨hentities,hpages⟩
  refine ⟨hentities.trans (List.prefix_append _ _),?_⟩
  intro k hk
  simp [addEntity,relate,Ne.symm hk,hpages k hk]

theorem record_same {c : Canvas} {i : Nat} {member : Entity → Recorded}
    (h : ∀ p, c.entities[i]? = some p → member p.entity = (p.entity,[])) :
    c.record i member = (c,none) := by
  rw [record]
  split
  · rfl
  · rename_i p hp
    have hset : c.setEntity i p.entity = c := by
      have hsame : (c.entities.modify i fun q => { q with entity := p.entity }) = c.entities := by
        apply List.ext_getElem?
        intro j
        by_cases hij : i = j
        · subst hij
          simp [hp]
        · simp [hij]
      simp only [setEntity,hsame]
    simp [h p hp,hset]

-- The entities that a document lists belong to it, so no entity is listed by two documents.
def Owned (c : Canvas) : Prop :=
  ∀ (k : Nat) (page : Page), c.pages[k]? = some page → ∀ i ∈ page.types, c.homeOf i = some k

theorem Owned.of_types {c d : Canvas} (h : c.Owned)
    (hpages : ∀ (k : Nat) (q : Page), d.pages[k]? = some q →
      q.types = [] ∨ ∃ p, c.pages[k]? = some p ∧ q.types = p.types)
    (hhome : ∀ i k, c.homeOf i = some k → d.homeOf i = some k) : d.Owned := by
  intro k q hq i hi
  rcases hpages k q hq with hnil | ⟨p,hp,htypes⟩
  · simp [hnil] at hi
  · exact hhome i k (h k p hp i (htypes ▸ hi))

theorem homeOf_append {c : Canvas} {i k : Nat} (more : List PlacedEntity) (pages : List Page)
    (h : c.homeOf i = some k) : ({ entities := c.entities ++ more,pages } : Canvas).homeOf i = some k := by
  obtain ⟨p,hp,hk⟩ := Option.bind_eq_some_iff.mp h
  have hi := (List.getElem?_eq_some_iff.mp hp).1
  simp [homeOf,List.getElem?_append_left hi,hp,hk]

theorem Owned.addPage {c : Canvas} (h : c.Owned) : c.addPage.Owned := by
  refine h.of_types ?_ fun _ _ hi => hi
  intro k q hq
  rw [Canvas.addPage,List.getElem?_append] at hq
  split at hq
  · exact .inr ⟨q,hq,rfl⟩
  · have hmem := List.mem_of_getElem? hq
    rw [List.mem_singleton] at hmem
    exact .inl (by rw [hmem])

theorem Owned.addLoose {c : Canvas} (h : c.Owned) (e : Entity) : (c.addLoose e).Owned :=
  h.of_types (fun _ q hq => .inr ⟨q,hq,rfl⟩) fun _ _ hi => homeOf_append _ _ hi

theorem Owned.relate {c : Canvas} (h : c.Owned) (page : Nat) (links : List Relationship) :
    (c.relate page links).Owned := by
  refine h.of_types ?_ fun _ _ hi => hi
  intro k q hq
  rw [Canvas.relate,List.getElem?_modify] at hq
  obtain ⟨p,hp,rfl⟩ := Option.map_eq_some_iff.mp hq
  exact .inr ⟨p,hp,by split <;> rfl⟩

theorem Owned.setEntity {c : Canvas} (h : c.Owned) (i : Nat) (e : Entity) : (c.setEntity i e).Owned := by
  refine h.of_types (fun _ q hq => .inr ⟨q,hq,rfl⟩) ?_
  intro j k hk
  obtain ⟨p,hp,hhome⟩ := Option.bind_eq_some_iff.mp hk
  by_cases hij : i = j <;> simp [homeOf,Canvas.setEntity,hp,hhome,hij]

theorem Owned.addEntity {c : Canvas} (h : c.Owned) (page : Nat) (e : Entity) :
    (c.addEntity page e).Owned := by
  intro k q hq i hi
  rw [Canvas.addEntity,List.getElem?_modify] at hq
  obtain ⟨p,hp,rfl⟩ := Option.map_eq_some_iff.mp hq
  split at hi
  · rename_i hpage
    subst hpage
    rcases List.mem_append.mp hi with hold | hnew
    · exact homeOf_append _ _ (h page p hp i hold)
    · rw [List.mem_singleton] at hnew
      simp [hnew,homeOf,Canvas.addEntity]
  · exact homeOf_append _ _ (h k p hp i hi)

theorem Owned.bindImport {c : Canvas} (h : c.Owned) (i : Nat) (name qualified : String) :
    (c.bindImport i name qualified).Owned := by
  rw [Canvas.bindImport]
  split
  · exact h
  · exact h.setEntity i _

theorem Owned.record {c : Canvas} (h : c.Owned) (i : Nat) (member : Entity → Recorded) :
    (c.record i member).1.Owned := by
  rcases c.record_cases i member with hc | ⟨p,_,hc | ⟨page,_,hc⟩⟩ <;> rw [hc]
  · exact h
  · exact h.setEntity i _
  · exact (h.setEntity i _).relate page _

theorem Owned.visitEach {c : Canvas} (h : c.Owned) (v : Viewpoint) (a : Assembly) (page : Nat)
    (ds : List Nat) : (Canvas.visitEach v a page ds c).1.Owned :=
  visitEach_preserves (fun _ e links hd => (hd.addEntity page e).relate page links) v a ds h

theorem Owned.visitUnit {c : Canvas} (h : c.Owned) (v : Viewpoint) (a : Assembly) (unit : Nat) :
    (c.visitUnit v a unit).1.Owned := by
  rcases visitUnit_cases v a unit c with hc | hc <;> rw [hc]
  · exact h
  · exact h.addPage.visitEach v a c.pages.length (a.walk unit)

end Canvas

namespace Session

theorem withCanvas_canvas (s : Session) (result : Canvas × Option PlacementError) :
    (s.withCanvas result).1.canvas = result.1 := by
  obtain ⟨c,e⟩ := result
  cases e <;> rfl

theorem perform_grows (s : Session) (step : Step) : s.canvas.Grows (s.perform step).1.canvas := by
  cases step with
  | openDocument => exact s.canvas.addPage_grows
  | buildDocument unit package =>
    rw [perform,withCanvas_canvas]
    exact Canvas.visitUnit_grows _ _ _ _
  | addEntity page package kind name => exact s.canvas.addEntity_grows page _
  | addLoose package kind name => exact s.canvas.addLoose_grows _
  | bindImport entity name qualified => exact s.canvas.bindImport_grows entity name qualified
  | relate page link => exact s.canvas.relate_grows page [link]
  | visitType d surface =>
    cases surface with
    | document page =>
      rw [perform,withCanvas_canvas]
      exact Canvas.visitEach_grows _ _ _ _ _
    | entity i => exact .refl _
  | visitMember m surface =>
    cases surface with
    | document page => exact .refl _
    | entity i =>
      rw [perform,withCanvas_canvas]
      exact s.canvas.record_grows i (m.record_grows _)
  | compare a b =>
    rw [perform]
    split <;> exact .refl _
  | _ => exact .refl _

theorem perform_owned {s : Session} (h : s.canvas.Owned) (step : Step) :
    (s.perform step).1.canvas.Owned := by
  cases step with
  | openDocument => exact h.addPage
  | buildDocument unit package =>
    rw [perform,withCanvas_canvas]
    exact h.visitUnit _ _ _
  | addEntity page package kind name => exact h.addEntity page _
  | addLoose package kind name => exact h.addLoose _
  | bindImport entity name qualified => exact h.bindImport entity name qualified
  | relate page link => exact h.relate page [link]
  | visitType d surface =>
    cases surface with
    | document page =>
      rw [perform,withCanvas_canvas]
      exact h.visitEach _ _ _ _
    | entity i => exact h
  | visitMember m surface =>
    cases surface with
    | document page => exact h
    | entity i =>
      rw [perform,withCanvas_canvas]
      exact h.record i _
  | compare a b =>
    rw [perform]
    split <;> exact h
  | _ => exact h

def after (s : Session) (steps : List Step) : Session :=
  steps.foldl (fun s step => (s.perform step).1) s

theorem after_append (s : Session) (steps later : List Step) :
    s.after (steps ++ later) = (s.after steps).after later := List.foldl_append

theorem after_grows (s : Session) (steps : List Step) : s.canvas.Grows (s.after steps).canvas := by
  induction steps generalizing s with
  | nil => exact .refl _
  | cons step steps ih => exact (s.perform_grows step).trans (ih _)

theorem after_owned {s : Session} (h : s.canvas.Owned) (steps : List Step) :
    (s.after steps).canvas.Owned := by
  induction steps generalizing s with
  | nil => exact h
  | cons step steps ih => exact ih (perform_owned h step)

end Session

def Step.Unpaired (c : Canvas) : Step → Prop
  | .visitType _ (.entity _) => True
  | .visitMember _ (.document _) => True
  | .visitMember (.component _) (.entity i) => ∀ p, c.entities[i]? = some p → p.entity.kind ≠ .record
  | _ => False

theorem Session.perform_unpaired {s : Session} {step : Step} (h : step.Unpaired s.canvas) :
    s.perform step = (s,.done) := by
  unfold Step.Unpaired at h
  split at h
  · rfl
  · rfl
  · rename_i p i
    have hsame : s.canvas.record i ((Member.component p).record s.viewpoint.options) =
        (s.canvas,none) := by
      refine Canvas.record_same fun q hq => ?_
      rw [Member.record,Entity.recordComponent,if_neg (h q hq)]
    rw [perform,hsame,withCanvas]
  · exact h.elim

theorem history_is_append_only (v : Viewpoint) (steps : List Step) :
    let s := Session.after { viewpoint := v } steps
    s.canvas.Owned ∧
    (∀ later, s.canvas.Grows (Session.after { viewpoint := v } (steps ++ later)).canvas) ∧
    (∀ step, s.canvas.Grows (s.perform step).1.canvas) ∧
    (∀ m i, s.canvas.ChangedAt (s.perform (.visitMember m (.entity i))).1.canvas i) ∧
    (∀ d surface, let t := (s.perform (.visitType d surface)).1
      s.canvas.entities <+: t.canvas.entities ∧
        ∀ k, surface ≠ .document k → t.canvas.pages[k]? = s.canvas.pages[k]?) ∧
    ∀ step : Step, step.Unpaired s.canvas → s.perform step = (s,.done) := by
  intro s
  have hempty : ({ viewpoint := v } : Session).canvas.Owned := by
    intro k page hpage
    simp at hpage
  refine ⟨Session.after_owned hempty steps,?_,s.perform_grows,?_,?_,?_⟩
  · intro later
    rw [Session.after_append]
    exact s.after_grows later
  · intro m i
    rw [Session.perform,Session.withCanvas_canvas]
    exact s.canvas.record_changedAt i _
  · intro d surface
    cases surface with
    | document page =>
      intro t
      have ht : t.canvas =
          (Canvas.visitEach s.viewpoint s.assembly page (s.assembly.preorder d) s.canvas).1 :=
        Session.withCanvas_canvas _ _
      obtain ⟨hentities,hpages⟩ :=
        Canvas.visitEach_keeps s.viewpoint s.assembly page (s.assembly.preorder d) s.canvas
      rw [ht]
      exact ⟨hentities,fun k hk => hpages k fun he => hk (by rw [he])⟩
    | entity i => exact ⟨List.prefix_refl _,fun _ _ => rfl⟩
  · intro step h
    exact Session.perform_unpaired h

def itemField : Member := .field ⟨["private"],.named "Item" [] none,[⟨"item","Item"⟩]⟩

def shopping : List Step :=
  [.openDocument,.addEntity 0 "shop" .cls "Cart",.addLoose "" .record "Lost",
    .visitMember itemField (.entity 0),.visitMember itemField (.entity 1)]

theorem history_is_append_only_shopping :
    let s := Session.after {} shopping
    let width : Member := .component ⟨[],.ofText "int","width"⟩
    s.canvas.homeOf 0 = some 0 ∧ s.canvas.homeOf 1 = none ∧
    (s.perform (.visitMember itemField (.entity 1))).2 = .failed (.noDocument "Lost") ∧
    s.canvas.Grows (s.perform (.visitMember itemField (.entity 1))).1.canvas ∧
    s.canvas.ChangedAt (s.perform (.visitMember itemField (.entity 1))).1.canvas 1 ∧
    Step.Unpaired s.canvas (.visitMember width (.entity 0)) ∧
    s.perform (.visitMember width (.entity 0)) = (s,.done) := by
  intro s width
  obtain ⟨_,_,hgrows,hmember,_,hunpaired⟩ := history_is_append_only {} shopping
  have hpair : Step.Unpaired s.canvas (.visitMember width (.entity 0)) := by
    intro p hp
    obtain rfl := Option.some.inj hp
    decide
  exact ⟨rfl,rfl,rfl,hgrows _,hmember itemField 1,hpair,hunpaired _ hpair⟩

end ClassDiagram
