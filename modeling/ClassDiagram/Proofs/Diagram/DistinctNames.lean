import ClassDiagram.Proofs.Diagram.Containment
import Mathlib.Data.List.Nodup

/-!
Distinct types have distinct names. A dotted path without dots in its pieces gives these pieces back, and the
name of a declaration is what stands before the first angle bracket of its piece. So the names along the
chain of a placement can be read off its path, and where siblings differ in name no two placements have the
same names along their chains.
-/

namespace ClassDiagram

structure Header.PlainlyNamed (h : Header) : Prop where
  dotless : h.Dotless
  angleless : '<' ∉ h.name.toList

instance (h : Header) : Decidable h.PlainlyNamed :=
  decidable_of_iff (h.Dotless ∧ '<' ∉ h.name.toList) ⟨fun hp => ⟨hp.1,hp.2⟩,fun hp => ⟨hp.1,hp.2⟩⟩

theorem Header.displayName_cut (h : Header) :
    ∃ rest, h.displayName.toList = h.name.toList ++ rest ∧ ∀ c ∈ rest.head?, c = '<' := by
  rw [Header.displayName]
  split
  · exact ⟨[],by simp,by simp⟩
  · exact ⟨(TypeRef.angled h.typeParameters).toList,String.toList_append,by simp [TypeRef.angled]⟩

theorem Header.PlainlyNamed.name_eq {g h : Header} (hg : g.PlainlyNamed) (hh : h.PlainlyNamed)
    (heq : g.displayName = h.displayName) : g.name = h.name := by
  obtain ⟨u,hu,hustart⟩ := g.displayName_cut
  obtain ⟨v,hv,hvstart⟩ := h.displayName_cut
  have hchars : g.name.toList ++ u = h.name.toList ++ v := by rw [← hu,← hv,heq]
  have hplain : ∀ {k : Header}, k.PlainlyNamed → ∀ c ∈ k.name.toList, c ≠ '<' :=
    fun hk c hc hcut => hk.angleless (hcut ▸ hc)
  have hcut := Text.cut_unique (hplain hg) (hplain hh) (fun c hc => not_not.mpr (hustart c hc))
    (fun c hc => not_not.mpr (hvstart c hc)) hchars
  exact String.toList_inj.mp hcut.1

def chainNames (chain : List Header) : List String := chain.map Header.name

theorem displayNames_eq_of_dottedPath {c d : List Header} (hc : c ≠ []) (hd : d ≠ [])
    (hcs : ∀ h ∈ c, h.Dotless) (hds : ∀ h ∈ d, h.Dotless) (heq : dottedPath c = dottedPath d) :
    c.map Header.displayName = d.map Header.displayName := by
  have hpieces : ∀ {e : List Header}, e ≠ [] → (∀ h ∈ e, h.Dotless) →
      Text.splitAtEach (· = '.') (dottedPath e).toList =
        (e.map Header.displayName).map String.toList := by
    intro e he hes
    refine Text.splitAtEach_intercalate rfl (by simpa using he) fun name hname => ?_
    obtain ⟨h,hh,rfl⟩ := List.mem_map.mp hname
    exact (hes h hh).displayName
  have hboth := hpieces hc hcs
  rw [heq,hpieces hd hds] at hboth
  exact (List.map_injective_iff.mpr fun _ _ h => String.toList_inj.mp h) hboth.symm

theorem chainNames_eq_of_displayNames {c d : List Header} (hcs : ∀ h ∈ c, h.PlainlyNamed)
    (hds : ∀ h ∈ d, h.PlainlyNamed) (heq : c.map Header.displayName = d.map Header.displayName) :
    chainNames c = chainNames d := by
  induction c generalizing d with
  | nil =>
    cases d with
    | nil => rfl
    | cons h d => simp at heq
  | cons g c ih =>
    cases d with
    | nil => simp at heq
    | cons h d =>
      rw [List.map_cons,List.map_cons,List.cons.injEq] at heq
      have hname := (hcs g (by simp)).name_eq (hds h (by simp)) heq.1
      have hrest := ih (fun k hk => hcs k (List.mem_cons_of_mem _ hk))
        (fun k hk => hds k (List.mem_cons_of_mem _ hk)) heq.2
      rw [chainNames,List.map_cons,hname]
      exact congrArg (h.name :: ·) hrest

namespace Declaration

def SiblingsDiffer (ds : List Declaration) : Prop :=
  (ds.map fun d => d.name).Nodup ∧ ∀ d ∈ walkFrom ds, (d.members.map fun m => m.name).Nodup

theorem SiblingsDiffer.cons_inv {h : Header} {members ds : List Declaration}
    (hs : SiblingsDiffer (⟨h,members⟩ :: ds)) :
    (∀ d ∈ ds, d.name ≠ h.name) ∧ SiblingsDiffer members ∧ SiblingsDiffer ds := by
  obtain ⟨hnames,hbelow⟩ := hs
  obtain ⟨hfirst,hrest⟩ := List.nodup_cons.mp hnames
  rw [walkFrom_cons] at hbelow
  obtain ⟨hmembers,hbelow⟩ := List.forall_mem_cons.mp hbelow
  obtain ⟨hinside,hafter⟩ := List.forall_mem_append.mp hbelow
  refine ⟨fun d hd heq => ?_,⟨hmembers,hinside⟩,hrest,hafter⟩
  exact hfirst (List.mem_map.mpr ⟨d,hd,heq⟩)

theorem chain_of_mem_placementsAmong {around : List Header} {ds : List Declaration} {p : Placement}
    (hp : p ∈ placementsAmong around ds) :
    ∃ d ∈ ds, ∃ rest, p.chain = around ++ d.toHeader :: rest := by
  induction ds using forest_induction generalizing around with
  | nil => simp [placementsAmong] at hp
  | cons h members ds ihm ihs =>
    rw [placementsAmong_cons,List.mem_cons,List.mem_append] at hp
    rcases hp with rfl | hp | hp
    · exact ⟨_,List.mem_cons_self,[],rfl⟩
    · obtain ⟨m,_,rest,hchain⟩ := ihm hp
      exact ⟨_,List.mem_cons_self,m.toHeader :: rest,by simpa using hchain⟩
    · obtain ⟨d,hd,rest,hchain⟩ := ihs hp
      exact ⟨d,List.mem_cons_of_mem _ hd,rest,hchain⟩

theorem chainNames_pairwise (around : List Header) {ds : List Declaration} (hs : SiblingsDiffer ds) :
    (placementsAmong around ds).Pairwise fun p q => chainNames p.chain ≠ chainNames q.chain := by
  induction ds using forest_induction generalizing around with
  | nil => simp [placementsAmong]
  | cons h members ds ihm ihs =>
    obtain ⟨hother,hmembers,hrest⟩ := hs.cons_inv
    rw [placementsAmong_cons,List.pairwise_cons,List.pairwise_append]
    have hself : chainNames (⟨around,⟨h,members⟩⟩ : Placement).chain = chainNames around ++ [h.name] := by
      simp [Placement.chain,chainNames]
    have hinside : ∀ p ∈ placementsAmong (around ++ [h]) members, ∃ name names,
        chainNames p.chain = chainNames around ++ h.name :: name :: names := by
      intro p hp
      obtain ⟨m,_,rest,hchain⟩ := chain_of_mem_placementsAmong hp
      exact ⟨m.name,chainNames rest,by simp [hchain,chainNames]⟩
    have hafter : ∀ p ∈ placementsAmong around ds, ∃ name names,
        name ≠ h.name ∧ chainNames p.chain = chainNames around ++ name :: names := by
      intro p hp
      obtain ⟨d,hd,rest,hchain⟩ := chain_of_mem_placementsAmong hp
      exact ⟨d.name,chainNames rest,hother d hd,by simp [hchain,chainNames]⟩
    refine ⟨fun p hp heq => ?_,ihm _ hmembers,ihs _ hrest,fun p hp q hq heq => ?_⟩
    · rw [hself] at heq
      rcases List.mem_append.mp hp with hp | hp
      · obtain ⟨name,names,hnames⟩ := hinside p hp
        simp [hnames] at heq
      · obtain ⟨name,names,hne,hnames⟩ := hafter p hp
        simp only [hnames,List.append_cancel_left_eq,List.cons.injEq] at heq
        exact hne heq.1.symm
    · obtain ⟨name,names,hnames⟩ := hinside p hp
      obtain ⟨other,others,hne,hothers⟩ := hafter q hq
      simp only [hnames,hothers,List.append_cancel_left_eq,List.cons.injEq] at heq
      exact hne heq.1.symm

theorem header_of_mem_chain {P : Header → Prop} {around : List Header} {ds : List Declaration}
    (haround : ∀ h ∈ around, P h) (hds : ∀ d ∈ walkFrom ds, P d.toHeader) {p : Placement}
    (hp : p ∈ placementsAmong around ds) : ∀ h ∈ p.chain, P h := by
  induction ds using forest_induction generalizing around with
  | nil => simp [placementsAmong] at hp
  | cons h members ds ihm ihs =>
    rw [walkFrom_cons] at hds
    obtain ⟨hfirst,hbelow⟩ := List.forall_mem_cons.mp hds
    obtain ⟨hinside,hafter⟩ := List.forall_mem_append.mp hbelow
    have hchain : ∀ k ∈ around ++ [h], P k :=
      List.forall_mem_append.mpr ⟨haround,by simpa using hfirst⟩
    rw [placementsAmong_cons,List.mem_cons,List.mem_append] at hp
    rcases hp with rfl | hp | hp
    · exact hchain
    · exact ihm hchain hinside hp
    · exact ihs haround hafter hp

end Declaration

namespace SourceUnit

def SiblingsDiffer (u : SourceUnit) : Prop := Declaration.SiblingsDiffer u.types

theorem paths_pairwise {u : SourceUnit} (hnames : ∀ d ∈ u.walk, d.PlainlyNamed)
    (hs : u.SiblingsDiffer) : u.placements.Pairwise fun p q => p.path ≠ q.path := by
  have hplain : ∀ p ∈ u.placements, ∀ h ∈ p.chain, h.PlainlyNamed := fun p hp =>
    Declaration.header_of_mem_chain (by simp) hnames hp
  have hne : ∀ p : Placement, p.chain ≠ [] := by simp [Placement.chain]
  refine (Declaration.chainNames_pairwise [] hs).imp_of_mem fun {p q} hp hq hdiffer heq => hdiffer ?_
  refine chainNames_eq_of_displayNames (hplain p hp) (hplain q hq) ?_
  exact displayNames_eq_of_dottedPath (hne p) (hne q) (fun h hh => (hplain p hp h hh).dotless)
    (fun h hh => (hplain q hq h hh).dotless) heq

theorem qualifiedNames_nodup {u : SourceUnit} (hnames : ∀ d ∈ u.walk, d.PlainlyNamed)
    (hs : u.SiblingsDiffer) (o : DiagramOptions) (package : Option String) :
    ((u.document o package).types.map Entity.qualifiedName).Nodup := by
  rw [u.document_eq,reference,Placement.document,List.map_map,List.Nodup,List.pairwise_map]
  exact (paths_pairwise hnames hs).imp fun hdiffer heq => hdiffer (qualify_injective heq)

end SourceUnit

namespace Assembly

variable {a : Assembly} {u : Nat} {s : SourceUnit}

def namesListed (a : Assembly) (k : Container) : List (Option String) :=
  (a.listed k).map fun d => a.declarations[d]?.map fun n => n.header.name

structure DistinctBelow (a : Assembly) (u : Nat) : Prop where
  plain : ∀ d ∈ a.walk u, ∀ n ∈ a.declarations[d]?, n.header.PlainlyNamed
  types : (a.namesListed (.unit u)).Nodup
  members : ∀ d ∈ a.walk u, (a.namesListed (.declaration d)).Nodup

theorem StandAll.names_eq {k : Container} {ids : List Nat} {ts : List Declaration}
    (hs : StandAll a k ids ts) :
    ids.map (fun d => a.declarations[d]?.map fun n => n.header.name) =
      (ts.map fun t => t.name).map some := by
  induction ts generalizing ids with
  | nil =>
    rw [StandAll] at hs
    simp [hs]
  | cons t ts ih =>
    rw [StandAll] at hs
    obtain ⟨d,ds,rfl,_,hd,hds⟩ := hs
    obtain ⟨n,hn,hh,_⟩ := stands_iff.mp hd
    rw [List.map_cons,ih hds,hn]
    simp [hh]

theorem Represents.plainlyNamed (r : a.Represents u s) (h : a.DistinctBelow u) :
    ∀ t ∈ s.walk, t.PlainlyNamed := by
  intro t ht
  obtain ⟨d,hd,hstands⟩ := r.exists_stands ht
  obtain ⟨n,hn,hh,_⟩ := stands_iff.mp hstands
  exact hh ▸ h.plain d hd n hn

theorem Represents.siblingsDiffer (r : a.Represents u s) (h : a.DistinctBelow u) :
    s.SiblingsDiffer := by
  refine ⟨?_,fun t ht => ?_⟩
  · obtain ⟨n,hn,_,_,hs⟩ := r
    have htypes := h.types
    rw [namesListed,listed,hn] at htypes
    exact List.Nodup.of_map some (hs.names_eq ▸ htypes)
  · obtain ⟨d,hd,hstands⟩ := r.exists_stands ht
    obtain ⟨n,hn,_,hs⟩ := stands_iff.mp hstands
    have hmembers := h.members d hd
    rw [namesListed,listed_declaration hn] at hmembers
    exact List.Nodup.of_map some (hs.names_eq ▸ hmembers)

end Assembly

theorem distinct_types_have_distinct_names (o : DiagramOptions) (package : Option String) :
    (∀ unit : SourceUnit, (∀ d ∈ unit.walk, d.PlainlyNamed) → unit.SiblingsDiffer →
      List.Forall₂ Declaration.DrawnAs unit.walk (unit.document o package).types ∧
        ((unit.document o package).types.map Entity.qualifiedName).Nodup) ∧
    ∀ (s : Session) (n : Nat), s.viewpoint.options = o → s.assembly.WellFormed n →
      s.assembly.DistinctBelow n →
      ∃ doc, s.Draws n package doc ∧ List.Forall₂ s.assembly.DrawsAs (s.assembly.walk n) doc.types ∧
        (doc.types.map Entity.qualifiedName).Nodup := by
  refine ⟨fun unit hnames hs => ⟨unit.walk_drawnAs o package,?_⟩,?_⟩
  · exact SourceUnit.qualifiedNames_nodup hnames hs o package
  · rintro s n rfl w hdistinct
    obtain ⟨unit,r⟩ := Assembly.wellFormed_iff_represents.mp w
    refine ⟨_,s.buildDocument_of_represents r package,r.draws _ package,?_⟩
    exact SourceUnit.qualifiedNames_nodup (r.plainlyNamed hdistinct) (r.siblingsDiffer hdistinct) _ _

def library : SourceUnit :=
  { package := "util"
    types := [{ form := .cls,name := "Map",typeParameters := ["K","V"]
                members := [{ form := .interface,name := "Entry"
                              members := [{ form := .record,name := "Entry"
                                            typeParameters := ["T"] }] },
                  { form := .enum,name := "Kind" }] },
      { form := .cls,name := "Entry" }] }

theorem distinct_types_have_distinct_names_library :
    (∀ d ∈ library.walk, d.PlainlyNamed) ∧ library.SiblingsDiffer ∧
    (library.document {} none).types.map Entity.qualifiedName =
      ["util.Map<K, V>","util.Map<K, V>.Entry","util.Map<K, V>.Entry.Entry<T>","util.Map<K, V>.Kind",
        "util.Entry"] ∧
    ((library.document {} none).types.map Entity.qualifiedName).Nodup ∧
    library.assembled.WellFormed 0 ∧ library.assembled.DistinctBelow 0 ∧
    ∃ doc, Session.Draws { assembly := library.assembled } 0 none doc ∧
      (doc.types.map Entity.qualifiedName).Nodup := by
  have r := library.assembled_represents
  have hbelow : library.assembled.DistinctBelow 0 := by
    have hwalk : library.assembled.walk 0 = [0,1,2,3,4] := rfl
    refine ⟨?_,by decide,?_⟩ <;> rw [hwalk] <;> decide
  have hplain := r.plainlyNamed hbelow
  have hsiblings := r.siblingsDiffer hbelow
  obtain ⟨hunits,hsessions⟩ := distinct_types_have_distinct_names {} none
  obtain ⟨doc,hdraws,_,hnodup⟩ :=
    hsessions { assembly := library.assembled } 0 rfl r.wellFormed hbelow
  exact ⟨hplain,hsiblings,by decide,(hunits _ hplain hsiblings).2,r.wellFormed,hbelow,doc,hdraws,hnodup⟩

end ClassDiagram
