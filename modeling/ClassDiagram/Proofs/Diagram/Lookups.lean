import ClassDiagram.Proofs.Assembly.Layout
import ClassDiagram.Proofs.Diagram.Origins

/-!
What the imports of a source file decide. The table of the imports is part of every entity; beyond that they
are read only where a link is drawn, to look up the simple name of the type referred to. So two lists of
imports under which these names mean the same give the same document, the tables apart.
-/

namespace ClassDiagram

def Entity.withImports (table : ImportTable) (e : Entity) : Entity := { e with imports := table }

def Document.withImports (d : Document) (table : ImportTable) : Document :=
  { d with types := d.types.map (Entity.withImports table) }

def SourceUnit.withImports (u : SourceUnit) (imports : List Import) : SourceUnit := { u with imports }

def Header.references (h : Header) : List TypeRef :=
  h.implemented ++ h.extended ++ h.fields.map FieldDecl.type ++ h.methods.flatMap MethodDecl.references

def Header.lookedUp (h : Header) : List String := h.references.filterMap TypeRef.baseName

def SourceUnit.lookedUp (u : SourceUnit) : List String := u.walk.flatMap fun d => d.lookedUp

def SameLookups (names : List String) (imports others : List Import) : Prop :=
  ∀ name ∈ names, lastImport? imports name = lastImport? others name

namespace Header

variable {h : Header} {o : DiagramOptions} {path : String}

def Covers (h : Header) (origins : List Origin) : Prop :=
  ∀ origin ∈ origins, ∀ name ∈ origin.baseName?, name ∈ h.lookedUp

theorem covers_nil : h.Covers [] := by simp [Covers]

theorem Covers.append {xs ys : List Origin} (hx : h.Covers xs) (hy : h.Covers ys) : h.Covers (xs ++ ys) :=
  List.forall_mem_append.mpr ⟨hx,hy⟩

theorem mem_lookedUp {t : TypeRef} (ht : t ∈ h.references) {c : Connector} :
    ∀ name ∈ (Origin.reference c path t).baseName?, name ∈ h.lookedUp :=
  fun _ hname => List.mem_filterMap.mpr ⟨t,ht,hname⟩

theorem covers_references {ts : List TypeRef} (hts : ts ⊆ h.references) {c : Connector} :
    h.Covers (ts.map (.reference c path)) := by
  intro origin horigin
  obtain ⟨t,ht,rfl⟩ := List.mem_map.mp horigin
  exact mem_lookedUp (hts ht)

theorem covers_supertypeOrigins : h.Covers (h.supertypeOrigins path) := by
  refine (covers_references fun t ht => by simp [references,ht]).append ?_
  split
  · exact covers_references fun t ht => by simp [references,ht]
  · exact covers_nil

theorem covers_fieldOrigins : h.Covers (h.fieldOrigins o path) := by
  rw [fieldOrigins]
  split
  · intro origin horigin
    obtain ⟨d,hd,rfl⟩ := List.mem_map.mp horigin
    refine mem_lookedUp ?_
    have ht : d.type ∈ h.fields.map FieldDecl.type := List.mem_map_of_mem (List.mem_of_mem_filter hd)
    simp only [references,List.mem_append,ht,or_true,true_or]
  · exact covers_nil

theorem covers_methodOrigins : h.Covers (h.methodOrigins o path) := by
  rw [methodOrigins]
  split
  · intro origin horigin
    obtain ⟨d,hd,horigin⟩ := List.mem_flatMap.mp horigin
    refine covers_references (fun t ht => ?_) origin horigin
    have ht : t ∈ h.methods.flatMap MethodDecl.references :=
      List.mem_flatMap.mpr ⟨d,List.mem_of_mem_filter hd,ht⟩
    simp only [references,List.mem_append,ht,or_true]
  · exact covers_nil

end Header

namespace Placement

variable {o : DiagramOptions} {imports others : List Import}

theorem covers_origins (p : Placement) : p.declaration.Covers (p.origins o) := by
  have hnesting : p.declaration.Covers p.nestingOrigins := by
    rw [nestingOrigins]
    split
    · simp [Header.Covers,Origin.baseName?]
    · exact Header.covers_nil
  exact ((hnesting.append Header.covers_supertypeOrigins).append Header.covers_fieldOrigins).append
    Header.covers_methodOrigins

theorem links_of_lookups {p : Placement} (h : SameLookups p.declaration.lookedUp imports others)
    (package : String) : p.links o package others = p.links o package imports := by
  rw [links_eq_map,links_eq_map]
  refine List.map_congr_left fun origin horigin => (Origin.link_of_lookup ?_ o package).symm
  exact fun name hname => h name (p.covers_origins origin horigin name hname)

theorem document_of_lookups {ps : List Placement}
    (h : ∀ p ∈ ps, SameLookups p.declaration.lookedUp imports others) (package : String) :
    document o package others ps = (document o package imports ps).withImports (importTable others) := by
  have hlinks : ps.flatMap (links o package others) = ps.flatMap (links o package imports) :=
    List.flatMap_congr fun p hp => links_of_lookups (h p hp) package
  rw [document,hlinks,document,Document.withImports,List.map_map]
  rfl

end Placement

namespace SourceUnit

variable {u : SourceUnit} {imports : List Import}

theorem document_withImports (h : SameLookups u.lookedUp u.imports imports) (o : DiagramOptions)
    (package : Option String) :
    (u.withImports imports).document o package =
      (u.document o package).withImports (importTable imports) := by
  rw [document_eq,document_eq]
  refine Placement.document_of_lookups (fun p hp name hname => h name ?_) (u.packageShown o package)
  have hwalk : p.declaration ∈ u.walk := by
    rw [← u.placements_declarations]
    exact List.mem_map_of_mem hp
  exact List.mem_flatMap.mpr ⟨_,hwalk,hname⟩

end SourceUnit

namespace Assembly

def withImports (a : Assembly) (u : Nat) (imports : List Import) : Assembly :=
  { a with units := a.units.modify u fun m => { m with imports } }

def importsOf (a : Assembly) (u : Nat) : List Import := (a.units[u]?.map AssembledUnit.imports).getD []

def lookedUp (a : Assembly) (u : Nat) : List String :=
  (a.walk u).flatMap fun d => (a.declarations[d]?.map fun n => n.header.lookedUp).getD []

variable {a b : Assembly} {u : Nat} {s : SourceUnit}

theorem StandAll.of_declarations (h : b.declarations = a.declarations) {k : Container} {ids : List Nat}
    {ts : List Declaration} (hs : StandAll a k ids ts) : StandAll b k ids ts := by
  induction ts using Declaration.forest_induction generalizing k ids with
  | nil => simpa only [StandAll] using hs
  | cons header members ts ihm ihs =>
    rw [StandAll] at hs ⊢
    obtain ⟨d,ds,hids,hparent,hd,hds⟩ := hs
    obtain ⟨n,hn,hheader,hmembers⟩ := stands_iff.mp hd
    refine ⟨d,ds,hids,?_,stands_iff.mpr ⟨n,h ▸ hn,hheader,ihm hmembers⟩,ihs hds⟩
    rw [parent?,h]
    exact hparent

theorem Represents.withImports (r : a.Represents u s) (imports : List Import) :
    (a.withImports u imports).Represents u (s.withImports imports) := by
  obtain ⟨n,hn,hpackage,_,htypes⟩ := r
  have hsame : (a.withImports u imports).declarations = a.declarations := rfl
  exact ⟨{ n with imports },by simp [Assembly.withImports,hn],hpackage,rfl,htypes.of_declarations hsame⟩

theorem Represents.importsOf_eq (r : a.Represents u s) : a.importsOf u = s.imports := by
  obtain ⟨n,hn,_,himports,_⟩ := r
  simp [importsOf,hn,himports]

theorem Represents.lookedUp_eq (r : a.Represents u s) : a.lookedUp u = s.lookedUp := by
  have hstands := r.stands
  rw [lookedUp,SourceUnit.lookedUp]
  generalize a.walk u = ids,s.walk = ts at hstands ⊢
  induction hstands with
  | nil => rfl
  | cons hd _ ih =>
    obtain ⟨n,hn,hheader,_⟩ := stands_iff.mp hd
    rw [List.flatMap_cons,List.flatMap_cons,ih,hn]
    simp [hheader]

end Assembly

inductive Rearranged (names : List String) : List Import → List Import → Prop
  | wildcard (before after : List Import) (i : Import) : i.isWildcard = true →
      Rearranged names (before ++ after) (before ++ i :: after)
  | unreferenced (before after : List Import) (i : Import) : i.name ∉ names →
      Rearranged names (before ++ after) (before ++ i :: after)
  | permuted {imports others : List Import} : imports.Perm others →
      (∀ name, imports.filter (·.name = name) = others.filter (·.name = name)) →
      Rearranged names imports others
  | symm {imports others : List Import} : Rearranged names imports others → Rearranged names others imports
  | trans {imports others rest : List Import} : Rearranged names imports others →
      Rearranged names others rest → Rearranged names imports rest

theorem lastImport?_of_filter {imports others : List Import} {name : String}
    (h : imports.filter (·.name = name) = others.filter (·.name = name)) :
    lastImport? imports name = lastImport? others name := by
  have hfilter : ∀ is : List Import, is.filter (fun i => !i.isWildcard && i.name == name) =
      (is.filter (·.name = name)).filter fun i => !i.isWildcard := by
    intro is
    rw [List.filter_filter]
    exact List.filter_congr fun i _ => rfl
  rw [lastImport?,lastImport?,hfilter,hfilter,h]

theorem Rearranged.sameLookups {names : List String} {imports others : List Import}
    (h : Rearranged names imports others) : SameLookups names imports others := by
  induction h with
  | wildcard before after i hi =>
    exact fun name _ => (lastImport?_insert (fun hw => by simp [hi] at hw) before after).symm
  | unreferenced before after i hi =>
    refine fun name hname => (lastImport?_insert (fun _ heq => ?_) before after).symm
    exact hi (heq ▸ hname)
  | permuted _ hkept => exact fun name _ => lastImport?_of_filter (hkept name)
  | symm _ ih => exact fun name hname => (ih name hname).symm
  | trans _ _ ih ih' => exact fun name hname => (ih name hname).trans (ih' name hname)

theorem imports_matter_by_lookups (o : DiagramOptions) (package : Option String) :
    (∀ (unit : SourceUnit) (imports : List Import), SameLookups unit.lookedUp unit.imports imports →
      (unit.withImports imports).document o package =
        (unit.document o package).withImports (importTable imports)) ∧
    (∀ (unit : SourceUnit) (imports : List Import), Rearranged unit.lookedUp unit.imports imports →
      ((unit.withImports imports).document o package).relationships =
        (unit.document o package).relationships) ∧
    ∀ (s : Session) (n : Nat) (imports : List Import), s.viewpoint.options = o →
      s.assembly.WellFormed n →
      ∃ doc doc', s.Draws n package doc ∧
        Session.Draws { s with assembly := s.assembly.withImports n imports } n package doc' ∧
        (SameLookups (s.assembly.lookedUp n) (s.assembly.importsOf n) imports →
          doc' = doc.withImports (importTable imports)) ∧
        (Rearranged (s.assembly.lookedUp n) (s.assembly.importsOf n) imports →
          doc'.relationships = doc.relationships) := by
  have hlinks : ∀ (unit : SourceUnit) (imports : List Import),
      Rearranged unit.lookedUp unit.imports imports →
      ((unit.withImports imports).document o package).relationships =
        (unit.document o package).relationships := by
    intro unit imports h
    rw [SourceUnit.document_withImports h.sameLookups]
    rfl
  refine ⟨fun unit imports h => SourceUnit.document_withImports h o package,hlinks,?_⟩
  rintro s n imports rfl w
  obtain ⟨unit,r⟩ := Assembly.wellFormed_iff_represents.mp w
  have hdraws := Session.buildDocument_of_represents
    { s with assembly := s.assembly.withImports n imports } (r.withImports imports) package
  refine ⟨_,_,s.buildDocument_of_represents r package,hdraws,?_,?_⟩ <;>
    rw [r.lookedUp_eq,r.importsOf_eq]
  · exact fun h => SourceUnit.document_withImports h _ package
  · exact hlinks unit imports

def roster (imports : List Import) : SourceUnit :=
  { package := "club",imports
    types := [{ form := .cls,name := "Team",implemented := [.named "Group" [] none]
                fields := [⟨[],.named "List" [.named "Player" [] none] none,[⟨"players","List<Player>"⟩]⟩]
                members := [{ form := .interface,name := "Coach"
                              methods := [⟨[],.named "Plan" [] none,"plan",
                                [⟨[],.named "Team" [] none,"team"⟩]⟩] }] }] }

def listImport : Import := { name := "List",qualifiedName := "java.util.List" }

def planImport : Import := { name := "Plan",qualifiedName := "drill.Plan" }

def gameImport : Import := { name := "",qualifiedName := "game",isWildcard := true }

def playerImport : Import := { name := "Player",qualifiedName := "game.Player" }

def groupImports : List Import :=
  [{ name := "Group",qualifiedName := "old.Group" },{ name := "Group",qualifiedName := "league.Group" }]

def rosterImports : List Import := listImport :: planImport :: groupImports

def rearrangedImports : List Import :=
  planImport :: gameImport :: groupImports ++ [playerImport,listImport]

theorem roster_lookedUp (imports : List Import) :
    (roster imports).lookedUp = ["Group","List","Plan","Team"] := by
  rw [← (roster imports).assembled_represents.lookedUp_eq]
  rfl

theorem rosterImports_rearranged :
    Rearranged (roster rosterImports).lookedUp rosterImports rearrangedImports := by
  rw [roster_lookedUp]
  have hpermuted : Rearranged ["Group","List","Plan","Team"] rosterImports
      (planImport :: groupImports ++ [listImport]) := by
    refine .permuted (by decide) fun name => ?_
    simp only [rosterImports,planImport,groupImports,listImport,List.cons_append,List.nil_append,
      List.filter_cons,List.filter_nil]
    by_cases hlist : "List" = name
    · subst hlist
      decide
    · simp [hlist]
  have hwildcard := hpermuted.trans (.wildcard [planImport] (groupImports ++ [listImport]) gameImport rfl)
  exact hwildcard.trans
    (.unreferenced (planImport :: gameImport :: groupImports) [listImport] playerImport (by decide))

theorem imports_matter_by_lookups_roster :
    SameLookups (roster rosterImports).lookedUp rosterImports rearrangedImports ∧
    Rearranged (roster rosterImports).lookedUp rosterImports rearrangedImports ∧
    ((roster rosterImports).document {} none).withImports (importTable rearrangedImports) =
      (roster rearrangedImports).document {} none ∧
    ((roster rearrangedImports).document {} none).relationships =
      ((roster rosterImports).document {} none).relationships ∧
    importTable rearrangedImports ≠ importTable rosterImports ∧
    (roster rosterImports).assembled.WellFormed 0 ∧
    ∃ doc, Session.Draws { assembly := (roster rosterImports).assembled } 0 none doc ∧
      Session.Draws { assembly := (roster rosterImports).assembled.withImports 0 rearrangedImports } 0 none
        (doc.withImports (importTable rearrangedImports)) := by
  have hrearranged := rosterImports_rearranged
  have hsame := hrearranged.sameLookups
  have r := (roster rosterImports).assembled_represents
  obtain ⟨hunits,hlinks,hsessions⟩ := imports_matter_by_lookups {} none
  obtain ⟨doc,doc',hdoc,hdoc',hequal,_⟩ :=
    hsessions { assembly := (roster rosterImports).assembled } 0 rearrangedImports rfl r.wellFormed
  rw [hequal (by rw [r.lookedUp_eq,r.importsOf_eq]; exact hsame)] at hdoc'
  exact ⟨hsame,hrearranged,(hunits _ _ hsame).symm,hlinks _ _ hrearranged,by decide,r.wellFormed,doc,hdoc,
    hdoc'⟩

end ClassDiagram
