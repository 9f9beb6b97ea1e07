import ClassDiagram.Proofs.Assembly.Layout
import ClassDiagram.Proofs.Text.Cutting

/-!
Containment is nesting. When no name has a dot in it, a path has a dot exactly when its declaration is
nested, and the part before the last dot is the path of the declaration around it. The containment links
of a document are then the parent links between its declarations.
-/

namespace ClassDiagram

namespace Text

theorem beforeLast_append {sep : Char} (front : List Char) {back : List Char} (h : sep ∉ back) :
    beforeLast sep (front ++ sep :: back) = front := by
  have hrev : (front ++ sep :: back).reverse = back.reverse ++ sep :: front.reverse := by simp
  have hback : ∀ c ∈ back.reverse, (decide (c ≠ sep)) = true := by
    intro c hc
    rw [decide_eq_true_iff]
    rintro rfl
    exact h (List.mem_reverse.mp hc)
  rw [beforeLast,hrev,List.dropWhile_append_of_pos hback]
  simp

theorem enclosingSegments_append (front : String) {back : String} (h : '.' ∉ back.toList) :
    enclosingSegments (front ++ "." ++ back) = front := by
  have hl : (front ++ "." ++ back).toList = front.toList ++ '.' :: back.toList := by
    simp [String.toList_append]
  rw [enclosingSegments,hl,beforeLast_append _ h,String.ofList_toList]

end Text

def Header.Dotless (h : Header) : Prop :=
  '.' ∉ h.name.toList ∧ ∀ t ∈ h.typeParameters, '.' ∉ t.toList

instance (h : Header) : Decidable h.Dotless := inferInstanceAs (Decidable (_ ∧ _))

theorem Header.Dotless.displayName {h : Header} (hd : h.Dotless) : '.' ∉ h.displayName.toList := by
  rw [Header.displayName]
  split
  · exact hd.1
  · have hparameters := @Text.not_mem_intercalate '.' ", " _ (by decide) hd.2
    simp only [TypeRef.angled,String.toList_append,List.mem_append,not_or]
    exact ⟨hd.1,⟨by decide,hparameters⟩,by decide⟩

theorem nestingLinks_of_dotless (package : String) {p : Placement}
    (h : p.declaration.Dotless) :
    nestingLinks package p.path =
      if p.enclosing = [] then []
      else [⟨.containment,qualify package p.path,qualify package (dottedPath p.enclosing)⟩] := by
  by_cases he : p.enclosing = []
  · have hpath : p.path = p.declaration.displayName := by
      simp [Placement.path,Placement.chain,he,dottedPath]
    rw [if_pos he,nestingLinks,hpath,if_neg h.displayName]
  · have hpath : p.path = dottedPath p.enclosing ++ "." ++ p.declaration.displayName :=
      dottedPath_append he _
    have hdot : '.' ∈ p.path.toList := by simp [hpath,String.toList_append]
    rw [if_neg he,nestingLinks,if_pos hdot]
    rw [hpath,Text.enclosingSegments_append _ h.displayName]

namespace Placement

variable (o : DiagramOptions) (package : String) (imports : List Import)

def memberLinks (p : Placement) : List Relationship :=
  let h := p.declaration.toHeader
  h.supertypeLinks o package imports p.path ++ h.fieldLinks o package imports p.path ++
    h.methodLinks o package imports p.path

theorem links_eq (p : Placement) :
    p.links o package imports = nestingLinks package p.path ++ p.memberLinks o package imports := by
  simp [links,memberLinks]

theorem mem_memberLinks {p : Placement} {r : Relationship}
    (h : r ∈ p.memberLinks o package imports) :
    r.connector ≠ .containment ∧ r.target = (p.entity o package imports).qualifiedName := by
  have hlink : ∀ c t, c ≠ .containment → r = Header.linkTo o package imports p.path c t →
      r.connector ≠ .containment ∧ r.target = (p.entity o package imports).qualifiedName := by
    rintro c t hc rfl
    exact ⟨hc,rfl⟩
  simp only [memberLinks,Header.supertypeLinks,Header.fieldLinks,Header.methodLinks,List.mem_append]
    at h
  rcases h with ((h | h) | h) | h
  · obtain ⟨t,_,rfl⟩ := List.mem_map.mp h
    exact hlink _ t (by decide) rfl
  · split at h
    · obtain ⟨t,_,rfl⟩ := List.mem_map.mp h
      exact hlink _ t (by decide) rfl
    · cases h
  · split at h
    · obtain ⟨d,_,rfl⟩ := List.mem_map.mp h
      exact hlink _ d.type (by decide) rfl
    · cases h
  · split at h
    · obtain ⟨d,_,hd⟩ := List.mem_flatMap.mp h
      obtain ⟨t,_,rfl⟩ := List.mem_map.mp hd
      exact hlink _ t (by decide) rfl
    · cases h

theorem containments_of_links {p : Placement} (h : p.declaration.Dotless) :
    (p.links o package imports).filter (·.connector = .containment) =
      nestingLinks package p.path := by
  rw [links_eq,List.filter_append,nestingLinks_of_dotless package h]
  have hmember : (p.memberLinks o package imports).filter (·.connector = .containment) = [] := by
    rw [List.filter_eq_nil_iff]
    intro r hr
    simpa using (mem_memberLinks o package imports hr).1
  rw [hmember]
  split <;> simp

end Placement

namespace Assembly

variable {a : Assembly} {u : Nat} {k : Container}

def nestings (a : Assembly) (u : Nat) : List (Nat × Nat) :=
  (a.walk u).zipIdx.filterMap fun x =>
    match a.parent? x.1 with
    | some (.declaration e) => some (x.2,e)
    | _ => none

def HostsAt (ids : List Nat) (ps : List Placement) (i : Nat) (around : List Header) :
    Container → Prop
  | .unit _ => around = []
  | .declaration e => ∃ j q, j < i ∧ ids[j]? = some e ∧ ps[j]? = some q ∧ q.chain = around

theorem HostsAt.mono {ids : List Nat} {ps : List Placement} {i j : Nat} {around : List Header}
    (h : HostsAt ids ps i around k) (hle : i ≤ j) : HostsAt ids ps j around k := by
  cases k with
  | unit v => exact h
  | declaration e =>
    obtain ⟨l,q,hl,hrest⟩ := h
    exact ⟨l,q,Nat.lt_of_lt_of_le hl hle,hrest⟩

def Nests (a : Assembly) (ids : List Nat) (ps : List Placement) (x : Nat × Nat) (p : Placement) :
    Prop :=
  ps[x.2]? = some p ∧ ∃ k, a.parent? x.1 = some k ∧ HostsAt ids ps x.2 p.enclosing k

theorem StandAll.nests (w : a.WellFormed u) {whole : List Nat} {ps : List Placement}
    {ts : List Declaration} {ids ds : List Nat} (hs : StandAll a k ids ts) (hc : Chain a u k ds)
    (hids : ∀ d ∈ ids, d ∈ a.listed k) (depth : Nat)
    (hdepth : a.declarations.length ≤ depth + ds.length) {start : Nat}
    (hwhole : Segment whole start (ids.flatMap (a.reach depth)))
    (hps : Segment ps start (Declaration.placementsAmong (a.headersOf ds) ts))
    (hk : HostsAt whole ps start (a.headersOf ds) k) :
    List.Forall₂ (Nests a whole ps) ((ids.flatMap (a.reach depth)).zipIdx start)
      (Declaration.placementsAmong (a.headersOf ds) ts) := by
  induction ts using Declaration.forest_induction generalizing k ids ds depth start with
  | nil =>
    rw [StandAll] at hs
    simp [hs,Declaration.placementsAmong]
  | cons h members ts ihm ihs =>
    rw [StandAll] at hs
    obtain ⟨d,rest,rfl,hparent,hd,hrest⟩ := hs
    obtain ⟨n,hn,rfl,hmembers⟩ := stands_iff.mp hd
    have hlisted := hids d (by simp)
    obtain ⟨left,hreach,hleft⟩ := w.reach_eq hc hlisted hn hdepth
    rw [List.flatMap_cons,hreach,List.cons_append] at hwhole ⊢
    rw [Declaration.placementsAmong_cons] at hps ⊢
    obtain ⟨hroot,hwholem,hwholes⟩ := hwhole.cons_append_inv
    obtain ⟨hplaced,hpsm,hpss⟩ := hps.cons_append_inv
    have hchain := headersOf_cons hn ds
    have hbelow := ihm hmembers (.declaration hc hlisted)
      (fun e he => by rwa [listed_declaration hn]) left hleft hwholem (by rwa [hchain])
      ⟨start,_,Nat.lt_succ_self start,hroot,hplaced,hchain.symm⟩
    rw [hchain] at hbelow
    have hlength := hbelow.length_eq
    rw [List.length_zipIdx] at hlength
    have hafter := ihs hrest hc (fun e he => hids e (List.mem_cons_of_mem _ he)) depth hdepth
      hwholes (by rwa [hlength]) (hk.mono (by omega))
    rw [List.zipIdx_cons,List.zipIdx_append]
    exact .cons ⟨hplaced,k,hparent,hk⟩ (List.rel_append hbelow hafter)

theorem Represents.nests {s : SourceUnit} (r : a.Represents u s) :
    List.Forall₂ (Nests a (a.walk u) s.placements) (a.walk u).zipIdx s.placements := by
  have w := r.wellFormed
  obtain ⟨m,hm,_,_,hs⟩ := r
  have hwalk : a.walk u = m.types.flatMap (a.reach a.declarations.length) := by
    simp only [walk,hm]
    rfl
  rw [hwalk]
  exact hs.nests w .unit (fun d hd => by simpa [listed,hm] using hd) a.declarations.length
    (by simp) ⟨[],[],rfl,by simp⟩ ⟨[],[],rfl,by simp [SourceUnit.placements,headersOf]⟩ rfl

def DrawsAs (a : Assembly) (d : Nat) (e : Entity) : Prop :=
  ∃ n m, a.declarations[d]? = some n ∧ a.place n = .ok (e.name,m) ∧ e.kind = n.header.kind

def DotlessBelow (a : Assembly) (u : Nat) : Prop :=
  ∀ d ∈ a.walk u, ∀ n ∈ a.declarations[d]?, n.header.Dotless

def LinksNested (a : Assembly) (u : Nat) (doc : Document) (r : Relationship) (x : Nat × Nat) : Prop :=
  ∃ j e f, j < x.1 ∧ (a.walk u)[j]? = some x.2 ∧ doc.types[x.1]? = some e ∧
    doc.types[j]? = some f ∧ r = ⟨.containment,e.qualifiedName,f.qualifiedName⟩

end Assembly

structure Document.ShowsNesting (doc : Document) (a : Assembly) (u : Nat) : Prop where
  drawn : List.Forall₂ a.DrawsAs (a.walk u) doc.types
  containments : List.Forall₂ (a.LinksNested u doc)
    (doc.relationships.filter (·.connector = .containment)) (a.nestings u)
  targets : ∀ r ∈ doc.relationships, ∃ e ∈ doc.types, r.target = e.qualifiedName

namespace SourceUnit

variable {s : SourceUnit} (o : DiagramOptions) (package : Option String)

theorem dotless_placements (hnames : ∀ d ∈ s.walk, d.Dotless) :
    ∀ p ∈ s.placements, p.declaration.Dotless := by
  intro p hp
  refine hnames _ ?_
  rw [← s.placements_declarations]
  exact List.mem_map.mpr ⟨p,hp,rfl⟩

theorem document_type (i : Nat) :
    (s.document o package).types[i]? =
      s.placements[i]?.map (Placement.entity o (s.packageShown o package) s.imports) := by
  rw [s.document_eq,reference,Placement.document,List.getElem?_map]

theorem containments_eq (hnames : ∀ d ∈ s.walk, d.Dotless) :
    (s.document o package).relationships.filter (·.connector = .containment) =
      s.placements.flatMap fun p => nestingLinks (s.packageShown o package) p.path := by
  rw [s.document_eq,reference,Placement.document,List.filter_flatMap]
  exact List.flatMap_congr fun p hp =>
    Placement.containments_of_links _ _ _ (dotless_placements hnames p hp)

end SourceUnit

namespace Assembly

variable {a : Assembly} {u : Nat} {s : SourceUnit} (o : DiagramOptions) (package : Option String)

theorem Represents.links_nested (r : a.Represents u s) (hnames : ∀ d ∈ s.walk, d.Dotless) :
    List.Forall₂ (a.LinksNested u (s.document o package))
      ((s.document o package).relationships.filter (·.connector = .containment))
      (a.nestings u) := by
  rw [SourceUnit.containments_eq o package hnames,nestings,List.filterMap_eq_flatMap_toList]
  refine forall₂_flatMap r.nests.flip ?_
  rintro p hp ⟨d,i⟩ ⟨hi,k,hk,hhost⟩
  simp only at hi hk hhost
  rw [nestingLinks_of_dotless _ (SourceUnit.dotless_placements hnames p hp)]
  cases k with
  | unit v =>
    have he : p.enclosing = [] := hhost
    simp [he,hk]
  | declaration e =>
    obtain ⟨j,q,hj,hwalk,hq,hchain⟩ := hhost
    have he : p.enclosing ≠ [] := by
      rw [← hchain]
      simp [Placement.chain]
    simp only [he,hk,if_false,Option.toList]
    refine .cons ⟨j,p.entity o (s.packageShown o package) s.imports,
      q.entity o (s.packageShown o package) s.imports,hj,hwalk,?_,?_,?_⟩ .nil
    · rw [SourceUnit.document_type,hi,Option.map_some]
    · rw [SourceUnit.document_type,hq,Option.map_some]
    · rw [← hchain]
      rfl

theorem Represents.draws (r : a.Represents u s) :
    List.Forall₂ a.DrawsAs (a.walk u) (s.document o package).types := by
  obtain ⟨m,_,_,_,hl⟩ := r.located
  rw [s.document_eq,SourceUnit.reference,Placement.document,List.forall₂_map_right_iff]
  refine hl.imp fun d p hd => ?_
  obtain ⟨n,hn,hh,hplace⟩ := hd
  exact ⟨n,m,hn,hplace,congrArg Header.kind hh.symm⟩

theorem Represents.target_mem_types (r : a.Represents u s) (hnames : ∀ d ∈ s.walk, d.Dotless)
    {link : Relationship} (hlink : link ∈ (s.document o package).relationships) :
    ∃ e ∈ (s.document o package).types, link.target = e.qualifiedName := by
  by_cases hc : link.connector = .containment
  · have hmem : link ∈ (s.document o package).relationships.filter (·.connector = .containment) :=
      List.mem_filter.mpr ⟨hlink,by simpa using hc⟩
    obtain ⟨i,hi,rfl⟩ := List.getElem_of_mem hmem
    have hl := r.links_nested o package hnames
    obtain ⟨_,_,f,_,_,_,hf,heq⟩ := (List.forall₂_iff_get.mp hl).2 i hi (hl.length_eq ▸ hi)
    exact ⟨f,List.mem_of_getElem? hf,congrArg Relationship.target heq⟩
  · rw [s.document_eq,SourceUnit.reference,Placement.document] at hlink ⊢
    obtain ⟨p,hp,hlink⟩ := List.mem_flatMap.mp hlink
    refine ⟨_,List.mem_map.mpr ⟨p,hp,rfl⟩,?_⟩
    rw [Placement.links_eq,List.mem_append] at hlink
    rcases hlink with hlink | hlink
    · rw [nestingLinks] at hlink
      split at hlink
      · rw [List.mem_singleton.mp hlink] at hc
        exact absurd rfl hc
      · cases hlink
    · exact (Placement.mem_memberLinks _ _ _ hlink).2

theorem Represents.showsNesting (r : a.Represents u s) (hnames : ∀ d ∈ s.walk, d.Dotless) :
    (s.document o package).ShowsNesting a u :=
  ⟨r.draws o package,r.links_nested o package hnames,
    fun _ hlink => r.target_mem_types o package hnames hlink⟩

theorem Represents.dotless_of_below (r : a.Represents u s) (h : a.DotlessBelow u) :
    ∀ d ∈ s.walk, d.Dotless := by
  intro t ht
  obtain ⟨d,hd,hstands⟩ := r.exists_stands ht
  obtain ⟨n,hn,hh,_⟩ := Assembly.stands_iff.mp hstands
  exact hh ▸ h d hd n hn

end Assembly

theorem containments_are_nestings (o : DiagramOptions) (package : Option String) :
    (∀ unit : SourceUnit, (∀ d ∈ unit.walk, d.Dotless) →
      unit.assembled.Represents 0 unit ∧
        (unit.document o package).ShowsNesting unit.assembled 0) ∧
    ∀ (s : Session) (n : Nat), s.viewpoint.options = o → s.assembly.WellFormed n →
      s.assembly.DotlessBelow n →
      ∃ c doc, s.perform (.buildDocument n package) = ({ s with canvas := c },.done) ∧
        c.documents[s.canvas.pages.length]? = some doc ∧ doc.ShowsNesting s.assembly n := by
  refine ⟨fun unit hnames => ?_,?_⟩
  · have r := unit.assembled_represents
    exact ⟨r,r.showsNesting o package hnames⟩
  · rintro s n rfl w hnames
    obtain ⟨unit,r⟩ := Assembly.wellFormed_iff_represents.mp w
    obtain ⟨c,hbuild,hdoc⟩ := s.buildDocument_of_represents r package
    exact ⟨c,_,hbuild,hdoc,r.showsNesting _ package (r.dotless_of_below hnames)⟩

theorem containments_are_nestings_nestedMap :
    nestedMap.WellFormed 0 ∧ nestedMap.DotlessBelow 0 ∧ nestedMap.nestings 0 = [(1,0),(2,1)] ∧
    ∃ c doc, Session.perform { assembly := nestedMap } (.buildDocument 0 none) =
        ({ assembly := nestedMap,canvas := c },.done) ∧
      c.documents[0]? = some doc ∧ doc.ShowsNesting nestedMap 0 := by
  have w := nestedMap_represents.wellFormed
  have hdotless : nestedMap.DotlessBelow 0 := by
    have hwalk : nestedMap.walk 0 = [0,1,2] := rfl
    rw [Assembly.DotlessBelow,hwalk]
    simp [nestedMap,Header.Dotless]
  exact ⟨w,hdotless,rfl,(containments_are_nestings {} none).2 { assembly := nestedMap } 0 rfl w hdotless⟩

end ClassDiagram
