import ClassDiagram.Session
import ClassDiagram.Proofs.Assembly.Representation
import ClassDiagram.Proofs.Diagram.Reference

/-!
Visiting a unit that stands for a source file. The declarations below it are met in the order of the
placements, each is placed under its dotted path, and the page drawn from them is the document of the
source file.
-/

namespace ClassDiagram

namespace Assembly

variable {a : Assembly} {u : Nat} {k : Container}

def headersOf (a : Assembly) (ds : List Nat) : List Header :=
  ds.reverse.filterMap fun d => a.declarations[d]?.map AssembledDecl.header

theorem headersOf_cons {d : Nat} {n : AssembledDecl} (hn : a.declarations[d]? = some n)
    (ds : List Nat) : a.headersOf (d :: ds) = a.headersOf ds ++ [n.header] := by
  simp [headersOf,hn]

theorem intercalate_last_two (names : List String) (outer inner : String) :
    ".".intercalate (names ++ [outer ++ "." ++ inner]) =
      ".".intercalate (names ++ [outer] ++ [inner]) := by
  rw [String.intercalate_append_of_ne_nil (l := names ++ [outer]) (by simp) (by simp)]
  cases names with
  | nil => simp
  | cons name names =>
    rw [String.intercalate_append_of_ne_nil (by simp) (by simp),
      String.intercalate_append_of_ne_nil (by simp) (by simp)]
    simp [String.append_assoc]

theorem Ascent.climb_eq {d : Nat} {es : List Nat} (h : Ascent a d es (some u)) {m : AssembledUnit}
    (hm : a.units[u]? = some m) (depth : Nat) (hdepth : es.length < depth) (path : String) :
    a.climb depth (.declaration d) path =
      some (".".intercalate ((a.headersOf (d :: es)).map Header.displayName ++ [path]),m) := by
  generalize htop : some u = top at h
  induction h generalizing depth path with
  | detached _ => cases htop
  | @unit d v hp =>
    obtain ⟨n,hn,hp⟩ := parent?_eq_some.mp hp
    obtain rfl := Option.some.inj htop
    obtain ⟨depth,rfl⟩ : ∃ left, depth = left + 1 := ⟨depth - 1,by omega⟩
    rw [climb,hn,headersOf_cons hn]
    simp [hp,climb,hm,headersOf]
  | @declaration d e es top hp _ ih =>
    obtain ⟨n,hn,hp⟩ := parent?_eq_some.mp hp
    obtain ⟨depth,rfl⟩ : ∃ left, depth = left + 1 := ⟨depth - 1,by omega⟩
    have hup := ih depth (by simpa using hdepth) (n.header.displayName ++ "." ++ path) htop
    rw [climb,hn]
    simp only [hp]
    rw [hup,headersOf_cons hn (e :: es),List.map_append,intercalate_last_two]
    rfl

theorem Ascent.place_eq {d : Nat} {es : List Nat} (h : Ascent a d es (some u)) {m : AssembledUnit}
    (hm : a.units[u]? = some m) {n : AssembledDecl} (hn : a.declarations[d]? = some n) :
    a.place n = .ok (dottedPath (a.headersOf es ++ [n.header]),m) := by
  have hparent : a.parent? d = n.parent := by simp [parent?,hn]
  have hlen := h.length_lt
  cases h with
  | unit hp =>
    rw [place,← hparent,hp]
    simp [climb,hm,dottedPath,headersOf]
  | @declaration _ e es _ hp hup =>
    rw [place,← hparent,hp]
    simp only [hup.climb_eq hm a.declarations.length (Nat.lt_of_succ_lt hlen),dottedPath,List.map_append]
    rfl

theorem WellFormed.reach_eq (w : a.WellFormed u) {ds : List Nat} (hc : Chain a u k ds) {d : Nat}
    (hd : d ∈ a.listed k) {n : AssembledDecl} (hn : a.declarations[d]? = some n) {depth : Nat}
    (hdepth : a.declarations.length ≤ depth + ds.length) :
    ∃ left, a.reach depth d = d :: n.members.flatMap (a.reach left) ∧
      a.declarations.length ≤ left + (d :: ds).length := by
  have hlen := w.chain_length_le (.declaration hc hd)
  simp only [List.length_cons] at hlen ⊢
  -- a chain is never longer than the assembly, so there is depth left for `d`
  obtain ⟨left,rfl⟩ : ∃ left, depth = left + 1 := ⟨depth - 1,by omega⟩
  exact ⟨left,by simp [reach,hn],by omega⟩

def Locates (a : Assembly) (m : AssembledUnit) (d : Nat) (p : Placement) : Prop :=
  ∃ n, a.declarations[d]? = some n ∧ n.header = p.declaration.toHeader ∧ a.place n = .ok (p.path,m)

theorem StandAll.located (w : a.WellFormed u) {m : AssembledUnit} (hm : a.units[u]? = some m)
    {ts : List Declaration} {ids ds : List Nat} (hs : StandAll a k ids ts) (hc : Chain a u k ds)
    (hids : ∀ d ∈ ids, d ∈ a.listed k) (depth : Nat)
    (hdepth : a.declarations.length ≤ depth + ds.length) :
    List.Forall₂ (Locates a m) (ids.flatMap (a.reach depth))
      (Declaration.placementsAmong (a.headersOf ds) ts) := by
  induction ts using Declaration.forest_induction generalizing k ids ds depth with
  | nil =>
    rw [StandAll] at hs
    simp [hs,Declaration.placementsAmong]
  | cons h members ts ihm ihs =>
    rw [StandAll] at hs
    obtain ⟨d,rest,rfl,_,hd,hrest⟩ := hs
    obtain ⟨n,hn,rfl,hmembers⟩ := stands_iff.mp hd
    have hlisted := hids d (by simp)
    obtain ⟨left,hreach,hleft⟩ := w.reach_eq hc hlisted hn hdepth
    have hbelow := ihm hmembers (.declaration hc hlisted)
      (fun e he => by rwa [listed_declaration hn]) left hleft
    have hafter := ihs hrest hc (fun e he => hids e (List.mem_cons_of_mem _ he)) depth hdepth
    rw [headersOf_cons hn] at hbelow
    rw [List.flatMap_cons,hreach,Declaration.placementsAmong_cons,List.cons_append]
    exact .cons ⟨n,hn,rfl,(w.ascent hc hlisted).place_eq hm hn⟩ (List.rel_append hbelow hafter)

theorem Represents.located {s : SourceUnit} (r : a.Represents u s) :
    ∃ m, a.units[u]? = some m ∧ m.package = s.package ∧ m.imports = s.imports ∧
      List.Forall₂ (Locates a m) (a.walk u) s.placements := by
  have w := r.wellFormed
  obtain ⟨m,hm,hpackage,himports,hs⟩ := r
  have hl := hs.located w hm .unit (fun d hd => by simpa [listed,hm] using hd)
    a.declarations.length (by simp)
  refine ⟨m,hm,hpackage,himports,?_⟩
  simp only [walk,hm]
  exact hl

theorem StandAll.stands (w : a.WellFormed u) {ts : List Declaration} {ids ds : List Nat}
    (hs : StandAll a k ids ts) (hc : Chain a u k ds) (hids : ∀ d ∈ ids, d ∈ a.listed k) (depth : Nat)
    (hdepth : a.declarations.length ≤ depth + ds.length) :
    List.Forall₂ (Stands a) (ids.flatMap (a.reach depth)) (Declaration.walkFrom ts) := by
  induction ts using Declaration.forest_induction generalizing k ids ds depth with
  | nil =>
    rw [StandAll] at hs
    simp [hs,Declaration.walkFrom]
  | cons h members ts ihm ihs =>
    rw [StandAll] at hs
    obtain ⟨d,rest,rfl,_,hd,hrest⟩ := hs
    obtain ⟨n,hn,_,hmembers⟩ := stands_iff.mp hd
    have hlisted := hids d (by simp)
    obtain ⟨left,hreach,hleft⟩ := w.reach_eq hc hlisted hn hdepth
    have hbelow := ihm hmembers (.declaration hc hlisted)
      (fun e he => by rwa [listed_declaration hn]) left hleft
    have hafter := ihs hrest hc (fun e he => hids e (List.mem_cons_of_mem _ he)) depth hdepth
    rw [List.flatMap_cons,hreach,Declaration.walkFrom_cons,List.cons_append]
    exact .cons hd (List.rel_append hbelow hafter)

theorem Represents.stands {s : SourceUnit} (r : a.Represents u s) :
    List.Forall₂ (Stands a) (a.walk u) s.walk := by
  have w := r.wellFormed
  obtain ⟨m,hm,_,_,hs⟩ := r
  have hwalk := hs.stands w .unit (fun d hd => by simpa [listed,hm] using hd) a.declarations.length
    (by simp)
  simp only [walk,hm]
  exact hwalk

theorem Represents.exists_stands {s : SourceUnit} (r : a.Represents u s) {t : Declaration}
    (ht : t ∈ s.walk) : ∃ d ∈ a.walk u, Stands a d t := by
  have hstands := r.stands
  obtain ⟨i,hi,rfl⟩ := List.getElem_of_mem ht
  have hi' : i < (a.walk u).length := hstands.length_eq ▸ hi
  exact ⟨_,List.getElem_mem hi',(List.forall₂_iff_get.mp hstands).2 i hi' hi⟩

theorem Locates.parent {m : AssembledUnit} {d : Nat} {p : Placement} (h : Locates a m d p) :
    ∃ k, a.parent? d = some k := by
  obtain ⟨n,hn,_,hplace⟩ := h
  cases hp : n.parent with
  | none => simp [place,hp] at hplace
  | some k => exact ⟨k,parent?_eq_some.mpr ⟨n,hn,hp⟩⟩

theorem Represents.parent_of_walk {s : SourceUnit} (r : a.Represents u s) {d : Nat}
    (hd : d ∈ a.walk u) : ∃ k, a.parent? d = some k := by
  obtain ⟨m,_,_,_,hl⟩ := r.located
  obtain ⟨i,hi,rfl⟩ := List.getElem_of_mem hd
  exact (List.forall₂_iff_get.mp hl).2 i hi (hl.length_eq ▸ hi) |>.parent

end Assembly

namespace Canvas

variable {c : Canvas} {page : Nat} {doc : Document}

def Shows (c : Canvas) (page : Nat) (doc : Document) : Prop :=
  ∃ p, c.pages[page]? = some p ∧ p.relationships = doc.relationships ∧
    p.types.map (fun i => c.entities[i]?.map PlacedEntity.entity) = doc.types.map some

theorem shows_addPage (c : Canvas) : c.addPage.Shows c.pages.length {} :=
  ⟨{},by simp [addPage],rfl,rfl⟩

theorem Shows.documents (h : c.Shows page doc) : c.documents[page]? = some doc := by
  obtain ⟨p,hp,hr,ht⟩ := h
  have htypes : c.entitiesOf p = doc.types := by
    have hm := congrArg (List.filterMap id) ht
    simpa [entitiesOf,List.filterMap_map,Function.comp_def] using hm
  simp [Canvas.documents,hp,htypes,hr]

theorem Shows.extend (h : c.Shows page doc) (e : Entity) (links : List Relationship) :
    ((c.addEntity page e).relate page links).Shows page (doc.extend e links) := by
  obtain ⟨p,hp,hr,ht⟩ := h
  refine ⟨{ types := p.types ++ [c.entities.length],relationships := p.relationships ++ links },?_,?_,?_⟩
  · simp [addEntity,relate,hp]
  · simp [Document.extend,hr]
  · have hold : ∀ i ∈ p.types, (c.entities ++ [⟨e,some page⟩])[i]?.map PlacedEntity.entity =
        c.entities[i]?.map PlacedEntity.entity := by
      intro i hi
      have hsome : c.entities[i]?.map PlacedEntity.entity ∈ doc.types.map some := by
        rw [← ht]
        exact List.mem_map.mpr ⟨i,hi,rfl⟩
      obtain ⟨x,_,hx⟩ := List.mem_map.mp hsome
      obtain ⟨y,hy,_⟩ := Option.map_eq_some_iff.mp hx.symm
      rw [List.getElem?_append_left (List.getElem?_eq_some_iff.mp hy).1]
    simp only [addEntity,relate,Document.extend,List.map_append,List.map_cons,List.map_nil]
    rw [List.map_congr_left hold,ht]
    simp

theorem visitOne_eq (v : Viewpoint) {a : Assembly} {m : AssembledUnit} {d : Nat} {p : Placement}
    (h : a.Locates m d p) (page : Nat) (c : Canvas) :
    visitOne v a page d c =
      .ok ((c.addEntity page (p.entity v.options v.entityPackage m.imports)).relate page
        (p.links v.options v.entityPackage m.imports)) := by
  obtain ⟨n,hn,hh,hplace⟩ := h
  simp only [visitOne,hn,hplace,hh,Header.entity_eq,containment_eq_nestingLinks]
  simp only [Placement.links,List.append_assoc]
  rfl

theorem visitEach_shows (v : Viewpoint) {a : Assembly} {m : AssembledUnit} {ids : List Nat}
    {ps : List Placement} (h : List.Forall₂ (a.Locates m) ids ps) (hs : c.Shows page doc) :
    ∃ c', visitEach v a page ids c = (c',none) ∧
      c'.Shows page (doc.append (Placement.document v.options v.entityPackage m.imports ps)) := by
  induction h generalizing c doc with
  | nil => exact ⟨c,rfl,by simpa [Placement.document,Document.append] using hs⟩
  | cons hd _ ih =>
    obtain ⟨c',hv,hshows⟩ := ih (hs.extend _ _)
    refine ⟨c',?_,?_⟩
    · rw [visitEach,visitOne_eq v hd]
      exact hv
    · rwa [Placement.document_cons] at hshows

theorem visitUnit_shows (v : Viewpoint) {a : Assembly} {u : Nat} {s : SourceUnit}
    (r : a.Represents u s) (c : Canvas) :
    ∃ c', c.visitUnit v a u = (c',none) ∧
      c'.Shows c.pages.length
        (Placement.document v.options v.entityPackage s.imports s.placements) := by
  obtain ⟨m,_,_,himports,hl⟩ := r.located
  obtain ⟨c',hv,hs⟩ := visitEach_shows v hl c.shows_addPage
  refine ⟨c',by rw [visitUnit,hv],?_⟩
  rw [himports] at hs
  simpa [Document.append] using hs

end Canvas

namespace Session

theorem buildDocument_of_represents (s : Session) {n : Nat} {unit : SourceUnit}
    (r : s.assembly.Represents n unit) (package : Option String) :
    ∃ c, s.perform (.buildDocument n package) = ({ s with canvas := c },.done) ∧
      c.documents[s.canvas.pages.length]? = some (unit.document s.viewpoint.options package) := by
  obtain ⟨m,hm,hpackage,_,_⟩ := r.located
  obtain ⟨c,hv,hs⟩ :=
    Canvas.visitUnit_shows ⟨package.getD unit.package,s.viewpoint.options⟩ r s.canvas
  refine ⟨c,?_,?_⟩
  · simp only [perform,hm,Option.map_some,Option.getD_some,hpackage,hv,withCanvas]
  · rw [hs.documents,SourceUnit.document_eq]
    rfl

def Draws (s : Session) (n : Nat) (package : Option String) (doc : Document) : Prop :=
  ∃ c, s.perform (.buildDocument n package) = ({ s with canvas := c },.done) ∧
    c.documents[s.canvas.pages.length]? = some doc

theorem draws_of_wellFormed {a : Assembly} {n : Nat} (w : a.WellFormed n) :
    ∃ unit, a.Represents n unit ∧ ∀ (s : Session) (package : Option String), s.assembly = a →
      s.Draws n package (unit.document s.viewpoint.options package) := by
  obtain ⟨unit,r⟩ := Assembly.wellFormed_iff_represents.mp w
  refine ⟨unit,r,?_⟩
  rintro s package rfl
  exact s.buildDocument_of_represents r package

end Session

def nestedMap : Assembly :=
  { declarations :=
      [{ header := { form := .cls,name := "Map",typeParameters := ["K","V"] }
         members := [1],parent := some (.unit 0) },
        { header := { form := .interface,name := "Entry" }
          members := [2],parent := some (.declaration 0) },
        { header := { form := .record,name := "Cursor",typeParameters := ["T"] }
          parent := some (.declaration 1) }]
    units := [{ package := "util",types := [0] }] }

theorem nestedMap_represents :
    nestedMap.Represents 0
      { package := "util"
        types := [{ form := .cls,name := "Map",typeParameters := ["K","V"]
                    members := [{ form := .interface,name := "Entry"
                                  members := [{ form := .record,name := "Cursor"
                                                typeParameters := ["T"] }] }] }] } := by
  simp [Assembly.Represents,Assembly.StandAll,Assembly.Stands,Assembly.parent?,nestedMap]

end ClassDiagram
