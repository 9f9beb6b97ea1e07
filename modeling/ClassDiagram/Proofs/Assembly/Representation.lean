import ClassDiagram.Assembly
import ClassDiagram.Proofs.Declaration.Placement
import Mathlib.Data.List.Forall2
import Mathlib.Data.List.Perm.Subperm

/-!
Assemblies that are trees. A unit of an assembly is well-formed when every declaration reached from it
has as parent what lists it. Such a unit has no circle below it, so it stands for one source file, and
following the parents of a declaration gives the path of its placement in that file.
-/

namespace ClassDiagram.Assembly

def listed (a : Assembly) : Container → List Nat
  | .unit u => (a.units[u]?.map AssembledUnit.types).getD []
  | .declaration d => (a.declarations[d]?.map AssembledDecl.members).getD []

def parent? (a : Assembly) (d : Nat) : Option Container :=
  a.declarations[d]?.bind AssembledDecl.parent

theorem parent?_eq_some {a : Assembly} {d : Nat} {k : Container} :
    a.parent? d = some k ↔ ∃ n, a.declarations[d]? = some n ∧ n.parent = some k := by
  simp [parent?,Option.bind_eq_some_iff]

theorem listed_declaration {a : Assembly} {d : Nat} {n : AssembledDecl}
    (h : a.declarations[d]? = some n) : a.listed (.declaration d) = n.members := by
  simp [listed,h]

-- The parents of a declaration, the nearest first, and the unit that they end in, if they end in one.
inductive Ascent (a : Assembly) : Nat → List Nat → Option Nat → Prop
  | detached {d : Nat} : a.parent? d = none → Ascent a d [] none
  | unit {d u : Nat} : a.parent? d = some (.unit u) → Ascent a d [] (some u)
  | declaration {d e : Nat} {es : List Nat} {top : Option Nat} :
      a.parent? d = some (.declaration e) → Ascent a e es top → Ascent a d (e :: es) top

namespace Ascent

variable {a : Assembly} {d u : Nat} {es : List Nat} {top : Option Nat}

theorem unique {fs : List Nat} {other : Option Nat} (h : Ascent a d es top)
    (h' : Ascent a d fs other) : es = fs ∧ top = other := by
  induction h generalizing fs other with
  | detached hp =>
    cases h' with
    | detached hp' => exact ⟨rfl,rfl⟩
    | unit hp' => simp [hp] at hp'
    | declaration hp' _ => simp [hp] at hp'
  | unit hp =>
    cases h' with
    | detached hp' => simp [hp] at hp'
    | unit hp' => exact ⟨rfl,by simpa [hp] using hp'⟩
    | declaration hp' _ => simp [hp] at hp'
  | @declaration d e es top hp _ ih =>
    cases h' with
    | detached hp' => simp [hp] at hp'
    | unit hp' => simp [hp] at hp'
    | @declaration _ e' es' _ hp' hup' =>
      obtain rfl : e = e' := by simpa [hp] using hp'
      obtain ⟨rfl,rfl⟩ := ih hup'
      exact ⟨rfl,rfl⟩

theorem above {x : Nat} (h : Ascent a d es top) (hx : x ∈ es) :
    ∃ fs, Ascent a x fs top ∧ fs.length < es.length := by
  induction h with
  | detached _ => cases hx
  | unit _ => cases hx
  | @declaration d e es top _ hup ih =>
    rcases List.mem_cons.mp hx with rfl | hx
    · exact ⟨es,hup,by simp⟩
    · obtain ⟨fs,hfs,hlen⟩ := ih hx
      exact ⟨fs,hfs,Nat.lt_succ_of_lt hlen⟩

theorem not_mem (h : Ascent a d es top) : d ∉ es := by
  intro hd
  obtain ⟨fs,hfs,hlen⟩ := h.above hd
  rw [(h.unique hfs).1] at hlen
  exact Nat.lt_irrefl _ hlen

theorem nodup (h : Ascent a d es top) : (d :: es).Nodup := by
  induction h with
  | detached _ => simp
  | unit _ => simp
  | declaration hp hup ih => exact List.nodup_cons.mpr ⟨(declaration hp hup).not_mem,ih⟩

theorem lt (h : Ascent a d es (some u)) : ∀ e ∈ d :: es, e < a.declarations.length := by
  have hparent : ∀ {e : Nat} {k : Container}, a.parent? e = some k → e < a.declarations.length := by
    intro e k he
    obtain ⟨n,hn,_⟩ := parent?_eq_some.mp he
    exact (List.getElem?_eq_some_iff.mp hn).1
  generalize htop : some u = top at h
  induction h with
  | detached _ => cases htop
  | unit hp => simpa using hparent hp
  | declaration hp _ ih => exact List.forall_mem_cons.mpr ⟨hparent hp,ih htop⟩

theorem length_lt (h : Ascent a d es (some u)) : es.length < a.declarations.length := by
  have hsub : d :: es ⊆ List.range a.declarations.length := fun e he =>
    List.mem_range.mpr (h.lt e he)
  simpa [Nat.add_one_le_iff] using h.nodup.length_le_of_subset hsub

end Ascent

inductive Chain (a : Assembly) (u : Nat) : Container → List Nat → Prop
  | unit : Chain a u (.unit u) []
  | declaration {k : Container} {ds : List Nat} {d : Nat} :
      Chain a u k ds → d ∈ a.listed k → Chain a u (.declaration d) (d :: ds)

structure WellFormed (a : Assembly) (u : Nat) : Prop where
  present : u < a.units.length
  linked : ∀ k ds, Chain a u k ds → ∀ d ∈ a.listed k, a.parent? d = some k

namespace WellFormed

variable {a : Assembly} {u : Nat} {k : Container} {ds : List Nat}

theorem ascent (w : a.WellFormed u) (h : Chain a u k ds) {d : Nat} (hd : d ∈ a.listed k) :
    Ascent a d ds (some u) := by
  induction h generalizing d with
  | unit => exact .unit (w.linked _ _ .unit d hd)
  | declaration hk he ih => exact .declaration (w.linked _ _ (.declaration hk he) d hd) (ih he)

theorem chain_unique (w : a.WellFormed u) {es : List Nat} (h : Chain a u k ds)
    (h' : Chain a u k es) : ds = es := by
  cases h with
  | unit =>
    cases h'
    rfl
  | declaration hk hd =>
    cases h' with
    | declaration hk' hd' => rw [((w.ascent hk hd).unique (w.ascent hk' hd')).1]

theorem chain_length_le (w : a.WellFormed u) (h : Chain a u k ds) :
    ds.length ≤ a.declarations.length := by
  cases h with
  | unit => exact Nat.zero_le _
  | declaration hk hd => exact (w.ascent hk hd).length_lt

end WellFormed

mutual

def Stands (a : Assembly) (d : Nat) : Declaration → Prop
  | ⟨h, members⟩ =>
      ∃ n, a.declarations[d]? = some n ∧ n.header = h ∧ StandAll a (.declaration d) n.members members

def StandAll (a : Assembly) (k : Container) : List Nat → List Declaration → Prop
  | ids, [] => ids = []
  | ids, t :: ts => ∃ d ds, ids = d :: ds ∧ a.parent? d = some k ∧ Stands a d t ∧ StandAll a k ds ts

end

def Represents (a : Assembly) (u : Nat) (s : SourceUnit) : Prop :=
  ∃ n, a.units[u]? = some n ∧ n.package = s.package ∧ n.imports = s.imports ∧
    StandAll a (.unit u) n.types s.types

section

variable {a : Assembly} {u : Nat} {k : Container}

theorem stands_iff {d : Nat} {t : Declaration} :
    Stands a d t ↔ ∃ n, a.declarations[d]? = some n ∧ n.header = t.toHeader ∧
      StandAll a (.declaration d) n.members t.members := by
  cases t
  simp [Stands]

theorem standAll_mem {ids : List Nat} {ts : List Declaration} (h : StandAll a k ids ts) :
    ∀ d ∈ ids, a.parent? d = some k ∧ ∃ t ∈ ts, Stands a d t := by
  induction ts generalizing ids with
  | nil =>
    rw [StandAll] at h
    simp [h]
  | cons t ts ih =>
    rw [StandAll] at h
    obtain ⟨d,ds,rfl,hp,hd,hds⟩ := h
    intro e he
    rcases List.mem_cons.mp he with rfl | he
    · exact ⟨hp,t,by simp,hd⟩
    · obtain ⟨hpe,t',ht',hst⟩ := ih hds e he
      exact ⟨hpe,t',List.mem_cons_of_mem _ ht',hst⟩

theorem exists_standAll {ids : List Nat}
    (h : ∀ d ∈ ids, a.parent? d = some k ∧ ∃ t, Stands a d t) : ∃ ts, StandAll a k ids ts := by
  induction ids with
  | nil => exact ⟨[],by simp [StandAll]⟩
  | cons d ds ih =>
    obtain ⟨hp,t,ht⟩ := h d (by simp)
    obtain ⟨ts,hts⟩ := ih fun e he => h e (List.mem_cons_of_mem _ he)
    exact ⟨t :: ts,by rw [StandAll]; exact ⟨d,ds,rfl,hp,ht,hts⟩⟩

theorem WellFormed.exists_trees (w : a.WellFormed u) (depth : Nat) {ds : List Nat}
    (hc : Chain a u k ds) (hdepth : a.declarations.length ≤ depth + ds.length) :
    ∃ ts, StandAll a k (a.listed k) ts := by
  induction depth generalizing k ds with
  | zero =>
    refine exists_standAll fun d hd => ?_
    have hlen := w.chain_length_le (.declaration hc hd)
    simp only [List.length_cons] at hlen
    omega
  | succ depth ih =>
    refine exists_standAll fun d hd => ⟨w.linked _ _ hc d hd,?_⟩
    obtain ⟨n,hn,_⟩ := parent?_eq_some.mp (w.linked _ _ hc d hd)
    obtain ⟨ts,hts⟩ := ih (.declaration hc hd) (by simp only [List.length_cons]; omega)
    rw [listed_declaration hn] at hts
    exact ⟨⟨n.header,ts⟩,by rw [Stands]; exact ⟨n,hn,rfl,hts⟩⟩

theorem WellFormed.exists_represents (w : a.WellFormed u) : ∃ s, a.Represents u s := by
  obtain ⟨n,hn⟩ : ∃ n, a.units[u]? = some n := ⟨_,List.getElem?_eq_getElem w.present⟩
  obtain ⟨ts,hts⟩ := w.exists_trees a.declarations.length .unit (by simp)
  refine ⟨{ package := n.package,imports := n.imports,types := ts },n,hn,rfl,rfl,?_⟩
  simpa [listed,hn] using hts

theorem Represents.chain_standAll {s : SourceUnit} (r : a.Represents u s) {ds : List Nat}
    (hc : Chain a u k ds) : ∃ ts, StandAll a k (a.listed k) ts := by
  induction hc with
  | unit =>
    obtain ⟨n,hn,_,_,hs⟩ := r
    exact ⟨s.types,by simpa [listed,hn] using hs⟩
  | declaration _ hd ih =>
    obtain ⟨ts,hts⟩ := ih
    obtain ⟨_,t,_,ht⟩ := standAll_mem hts _ hd
    obtain ⟨n,hn,_,hm⟩ := stands_iff.mp ht
    exact ⟨t.members,by rw [listed_declaration hn]; exact hm⟩

theorem Represents.wellFormed {s : SourceUnit} (r : a.Represents u s) : a.WellFormed u := by
  refine ⟨?_,fun k ds hc d hd => ?_⟩
  · obtain ⟨n,hn,_⟩ := r
    exact (List.getElem?_eq_some_iff.mp hn).1
  · obtain ⟨ts,hts⟩ := r.chain_standAll hc
    exact (standAll_mem hts d hd).1

theorem wellFormed_iff_represents : a.WellFormed u ↔ ∃ s, a.Represents u s :=
  ⟨fun w => w.exists_represents,fun ⟨_,r⟩ => r.wellFormed⟩

end

end ClassDiagram.Assembly
