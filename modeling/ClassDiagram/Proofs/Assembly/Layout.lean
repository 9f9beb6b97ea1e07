import ClassDiagram.Proofs.Assembly.Visit

/-!
Source files as assemblies. Adding the declarations of a source file to an empty assembly numbers them in
the order of the worklist. In the assembly that results every declaration is listed once, by its parent,
and the unit stands for the source file.
-/

namespace ClassDiagram

theorem modify_append_left {α : Type} (f : α → α) {i : Nat} {xs : List α} (h : i < xs.length)
    (ys : List α) : (xs ++ ys).modify i f = xs.modify i f ++ ys := by
  induction xs generalizing i with
  | nil => simp at h
  | cons x xs ih =>
    cases i with
    | zero => rfl
    | succ i =>
      simp only [List.cons_append,List.modify_succ_cons]
      rw [ih (by simpa using h)]

theorem modify_append_cons {α : Type} (f : α → α) (xs : List α) (y : α) (ys : List α) :
    (xs ++ y :: ys).modify xs.length f = xs ++ f y :: ys := by
  induction xs with
  | nil => rfl
  | cons x xs ih => simpa using ih

def Segment {α : Type} (whole : List α) (start : Nat) (part : List α) : Prop :=
  ∃ pre post, pre.length = start ∧ whole = pre ++ part ++ post

theorem Segment.cons_append_inv {α : Type} {whole xs ys : List α} {start : Nat} {x : α}
    (h : Segment whole start (x :: (xs ++ ys))) :
    whole[start]? = some x ∧ Segment whole (start + 1) xs ∧
      Segment whole (start + 1 + xs.length) ys := by
  obtain ⟨pre,post,rfl,rfl⟩ := h
  refine ⟨by simp,⟨pre ++ [x],ys ++ post,by simp,by simp⟩,?_⟩
  exact ⟨pre ++ x :: xs,post,by simp; omega,by simp⟩

namespace Assembly

def rootsFrom (start : Nat) : List Declaration → List Nat
  | [] => []
  | d :: ds => start :: rootsFrom (start + d.size) ds

mutual

def layoutIn (k : Container) (start : Nat) : Declaration → List AssembledDecl
  | ⟨h, members⟩ =>
      { header := h,members := rootsFrom (start + 1) members,parent := some k } ::
        layoutAmong (.declaration start) (start + 1) members

def layoutAmong (k : Container) (start : Nat) : List Declaration → List AssembledDecl
  | [] => []
  | d :: ds => layoutIn k start d ++ layoutAmong k (start + d.size) ds

end

theorem layoutAmong_cons (k : Container) (start : Nat) (h : Header) (members ds : List Declaration) :
    layoutAmong k start (⟨h,members⟩ :: ds) =
      { header := h,members := rootsFrom (start + 1) members,parent := some k } ::
        (layoutAmong (.declaration start) (start + 1) members ++
          layoutAmong k (start + 1 + Declaration.sizes members) ds) := by
  simp only [layoutAmong,layoutIn,Declaration.size,List.cons_append]
  rw [Nat.add_right_comm start 1,Nat.add_assoc start]

theorem layoutAmong_length (k : Container) (start : Nat) (ds : List Declaration) :
    (layoutAmong k start ds).length = Declaration.sizes ds := by
  induction ds using Declaration.forest_induction generalizing k start with
  | nil => rfl
  | cons h members ds ihm ihs =>
    rw [layoutAmong_cons]
    simp only [List.length_cons,List.length_append,ihm,ihs,Declaration.sizes,Declaration.size]
    omega

theorem addForest_cons (parent : Nat) (h : Header) (members ds : List Declaration) (a : Assembly) :
    addForest parent (⟨h,members⟩ :: ds) a =
      addForest parent ds ((addTree ⟨h,members⟩ a).attachMember parent a.declarations.length) := by
  rw [addForest]

theorem addTree_of_addForest {h : Header} {members : List Declaration} {a : Assembly}
    (hm : ∀ (b : Assembly) (p : Nat), p < b.declarations.length →
      addForest p members b =
        { b with declarations := b.declarations.modify p (fun n =>
            { n with members := n.members ++ rootsFrom b.declarations.length members }) ++
          layoutAmong (.declaration p) b.declarations.length members }) :
    addTree ⟨h,members⟩ a =
      { a with declarations := a.declarations ++
          { header := h,members := rootsFrom (a.declarations.length + 1) members } ::
            layoutAmong (.declaration a.declarations.length) (a.declarations.length + 1) members } := by
  rw [addTree,hm _ _ (by simp [addHeader])]
  simp only [addHeader,List.length_append,List.length_cons,List.length_nil,Nat.zero_add]
  rw [modify_append_cons]
  simp

theorem addForest_eq (ds : List Declaration) (a : Assembly) (p : Nat)
    (hp : p < a.declarations.length) :
    addForest p ds a =
      { a with declarations := a.declarations.modify p (fun n =>
          { n with members := n.members ++ rootsFrom a.declarations.length ds }) ++
        layoutAmong (.declaration p) a.declarations.length ds } := by
  induction ds using Declaration.forest_induction generalizing a p with
  | nil =>
    simp only [addForest,rootsFrom,layoutAmong,List.append_nil]
    exact congrArg (Assembly.mk · a.units) (List.modify_id p a.declarations).symm
  | cons h members ds ihm ihs =>
    rw [addForest_cons,addTree_of_addForest ihm]
    simp only [attachMember]
    rw [modify_append_cons,modify_append_left _ hp,ihs]
    · simp only [List.length_append,List.length_modify,List.length_cons,layoutAmong_length]
      rw [modify_append_left _ (by simpa using hp),List.modify_modify_eq,layoutAmong_cons,rootsFrom]
      simp only [Declaration.size,Function.comp_def,List.append_assoc,List.cons_append,
        List.nil_append]
      rw [Nat.add_comm (Declaration.sizes members) 1,Nat.add_assoc]
    · simp only [List.length_append,List.length_modify,List.length_cons]
      omega

theorem addTree_eq (d : Declaration) (a : Assembly) :
    addTree d a =
      { a with declarations := a.declarations ++
          { header := d.toHeader,members := rootsFrom (a.declarations.length + 1) d.members } ::
            layoutAmong (.declaration a.declarations.length) (a.declarations.length + 1) d.members } := by
  cases d
  exact addTree_of_addForest fun b p hp => addForest_eq _ b p hp

def addTypes (unit : Nat) : List Declaration → Assembly → Assembly
  | [], a => a
  | d :: ds, a => addTypes unit ds ((addTree d a).attachType unit a.declarations.length)

theorem addTypes_eq (u : Nat) (ds : List Declaration) (a : Assembly) :
    addTypes u ds a =
      { declarations := a.declarations ++ layoutAmong (.unit u) a.declarations.length ds
        units := a.units.modify u fun n =>
          { n with types := n.types ++ rootsFrom a.declarations.length ds } } := by
  induction ds generalizing a with
  | nil =>
    simp only [addTypes,layoutAmong,rootsFrom,List.append_nil]
    exact congrArg (Assembly.mk a.declarations) (List.modify_id u a.units).symm
  | cons d ds ih =>
    obtain ⟨h,members⟩ := d
    rw [addTypes,addTree_eq]
    simp only [attachType]
    rw [modify_append_cons,ih]
    simp only [List.length_append,List.length_cons,layoutAmong_length]
    rw [List.modify_modify_eq,layoutAmong_cons,rootsFrom]
    simp only [Declaration.size,Function.comp_def,List.append_assoc,List.cons_append,List.nil_append]
    rw [Nat.add_comm (Declaration.sizes members) 1,Nat.add_assoc]

end Assembly

def SourceUnit.assembled (u : SourceUnit) : Assembly :=
  Assembly.addTypes 0 u.types (Assembly.addUnit {} u.package u.imports)

theorem SourceUnit.assembled_eq (u : SourceUnit) :
    u.assembled =
      { declarations := Assembly.layoutAmong (.unit 0) 0 u.types
        units := [{ package := u.package,imports := u.imports
                    types := Assembly.rootsFrom 0 u.types }] } := by
  simp [assembled,Assembly.addTypes_eq,Assembly.addUnit]

namespace Assembly

def LaidOut (a : Assembly) (k : Container) (start : Nat) (ds : List Declaration) : Prop :=
  Segment a.declarations start (layoutAmong k start ds)

theorem LaidOut.cons_inv {a : Assembly} {k : Container} {start : Nat} {h : Header}
    {members ds : List Declaration} (hl : LaidOut a k start (⟨h,members⟩ :: ds)) :
    a.declarations[start]? =
        some { header := h,members := rootsFrom (start + 1) members,parent := some k } ∧
      LaidOut a (.declaration start) (start + 1) members ∧
      LaidOut a k (start + (⟨h,members⟩ : Declaration).size) ds := by
  rw [LaidOut,layoutAmong_cons] at hl
  obtain ⟨hroot,hmembers,hrest⟩ := hl.cons_append_inv
  refine ⟨hroot,hmembers,?_⟩
  have hsize : start + (⟨h,members⟩ : Declaration).size =
      start + 1 + Declaration.sizes members := by
    rw [Declaration.size]
    omega
  rw [layoutAmong_length] at hrest
  rwa [LaidOut,hsize]

theorem LaidOut.standAll {a : Assembly} {k : Container} {start : Nat} {ds : List Declaration}
    (hl : LaidOut a k start ds) : StandAll a k (rootsFrom start ds) ds := by
  induction ds using Declaration.forest_induction generalizing k start with
  | nil => simp [StandAll,rootsFrom]
  | cons h members ds ihm ihs =>
    obtain ⟨hroot,hmembers,hrest⟩ := hl.cons_inv
    rw [StandAll]
    refine ⟨start,_,rfl,parent?_eq_some.mpr ⟨_,hroot,rfl⟩,?_,ihs hrest⟩
    exact stands_iff.mpr ⟨_,hroot,rfl,ihm hmembers⟩

theorem LaidOut.reach_eq {a : Assembly} {k : Container} {start : Nat} {ds : List Declaration}
    (hl : LaidOut a k start ds) (depth : Nat) (hdepth : Declaration.sizes ds ≤ depth) :
    (rootsFrom start ds).flatMap (a.reach depth) = List.range' start (Declaration.sizes ds) := by
  induction ds using Declaration.forest_induction generalizing k start depth with
  | nil => simp [rootsFrom,Declaration.sizes]
  | cons h members ds ihm ihs =>
    obtain ⟨hroot,hmembers,hrest⟩ := hl.cons_inv
    simp only [Declaration.sizes,Declaration.size] at hdepth
    obtain ⟨depth,rfl⟩ : ∃ e, depth = e + 1 := ⟨depth - 1,by omega⟩
    have hreach : a.reach (depth + 1) start =
        List.range' start ((⟨h,members⟩ : Declaration).size) := by
      rw [reach,hroot,Declaration.size,List.range'_succ]
      simp only
      rw [ihm hmembers depth (by omega)]
    rw [rootsFrom,List.flatMap_cons,hreach,ihs hrest (depth + 1) (by omega),Declaration.sizes,
      List.range'_append_1]

structure Linked (a : Assembly) : Prop where
  listed_iff : ∀ k d, d ∈ a.listed k ↔ a.parent? d = some k
  nodup : ∀ k, (a.listed k).Nodup

theorem Linked.attach {a b : Assembly} (h : Linked a) {k : Container} {child : Nat}
    (hfree : a.parent? child = none)
    (hlisted : ∀ k', b.listed k' = if k' = k then a.listed k' ++ [child] else a.listed k')
    (hparent : ∀ d, b.parent? d = if d = child then some k else a.parent? d) : Linked b := by
  have hnew : ∀ k', child ∉ a.listed k' := by
    intro k' hc
    rw [h.listed_iff,hfree] at hc
    cases hc
  refine ⟨fun k' d => ?_,fun k' => ?_⟩
  · rw [hlisted,hparent]
    by_cases hk : k' = k <;> by_cases hd : d = child
    · simp [hk,hd]
    · simp [hk,hd,h.listed_iff]
    · subst hd
      rw [if_neg hk,if_pos rfl]
      exact ⟨fun hc => absurd hc (hnew k'),fun he => absurd (Option.some.inj he).symm hk⟩
    · simp [hk,hd,h.listed_iff]
  · rw [hlisted]
    split
    · exact List.nodup_append.mpr ⟨h.nodup k',by simp,fun x hx y hy hxy => by
        rw [List.mem_singleton] at hy
        exact hnew k' (hy ▸ hxy ▸ hx)⟩
    · exact h.nodup k'

theorem listed_attachMember {a : Assembly} {p : Nat} (hp : p < a.declarations.length) (child : Nat)
    (k : Container) :
    (a.attachMember p child).listed k =
      if k = .declaration p then a.listed k ++ [child] else a.listed k := by
  cases k with
  | unit u => simp [listed,attachMember]
  | declaration d =>
    by_cases hd : d = p
    · subst hd
      obtain ⟨n,hn⟩ : ∃ n, a.declarations[d]? = some n := ⟨_,List.getElem?_eq_getElem hp⟩
      by_cases hdc : child = d <;> simp [listed,attachMember,hn,hdc]
    · have hd' : p ≠ d := fun he => hd he.symm
      cases hn : a.declarations[d]? with
      | none => simp [listed,attachMember,List.getElem?_modify,hn,hd]
      | some n => by_cases hdc : child = d <;> simp [listed,attachMember,hn,hd,hd',hdc]

theorem parent?_attachMember {a : Assembly} {child : Nat} (hc : child < a.declarations.length)
    (p d : Nat) :
    (a.attachMember p child).parent? d =
      if d = child then some (.declaration p) else a.parent? d := by
  by_cases hd : d = child
  · subst hd
    obtain ⟨n,hn⟩ : ∃ n, a.declarations[d]? = some n := ⟨_,List.getElem?_eq_getElem hc⟩
    by_cases hpd : p = d <;> simp [parent?,attachMember,hn,hpd]
  · have hd' : child ≠ d := fun he => hd he.symm
    cases hn : a.declarations[d]? with
    | none => simp [parent?,attachMember,List.getElem?_modify,hn,hd]
    | some n => by_cases hpd : p = d <;> simp [parent?,attachMember,hn,hd,hd',hpd]

theorem Linked.attachMember {a : Assembly} (h : Linked a) {p child : Nat}
    (hp : p < a.declarations.length) (hc : child < a.declarations.length)
    (hfree : a.parent? child = none) : Linked (a.attachMember p child) :=
  h.attach hfree (listed_attachMember hp child) (parent?_attachMember hc p)

theorem listed_attachType {a : Assembly} {u : Nat} (hu : u < a.units.length) (child : Nat)
    (k : Container) :
    (a.attachType u child).listed k = if k = .unit u then a.listed k ++ [child] else a.listed k := by
  cases k with
  | unit v =>
    by_cases hv : v = u
    · subst hv
      obtain ⟨n,hn⟩ : ∃ n, a.units[v]? = some n := ⟨_,List.getElem?_eq_getElem hu⟩
      simp [listed,attachType,hn]
    · have hv' : u ≠ v := fun he => hv he.symm
      simp [listed,attachType,hv,hv']
  | declaration d =>
    cases hn : a.declarations[d]? with
    | none => simp [listed,attachType,List.getElem?_modify,hn]
    | some n => by_cases hdc : child = d <;> simp [listed,attachType,hn,hdc]

theorem parent?_attachType {a : Assembly} {child : Nat} (hc : child < a.declarations.length)
    (u d : Nat) :
    (a.attachType u child).parent? d = if d = child then some (.unit u) else a.parent? d := by
  by_cases hd : d = child
  · subst hd
    obtain ⟨n,hn⟩ : ∃ n, a.declarations[d]? = some n := ⟨_,List.getElem?_eq_getElem hc⟩
    simp [parent?,attachType,hn]
  · have hd' : child ≠ d := fun he => hd he.symm
    simp [parent?,attachType,hd,hd']

theorem Linked.attachType {a : Assembly} (h : Linked a) {u child : Nat}
    (hu : u < a.units.length) (hc : child < a.declarations.length)
    (hfree : a.parent? child = none) : Linked (a.attachType u child) :=
  h.attach hfree (listed_attachType hu child) (parent?_attachType hc u)

theorem getElem?_append_fresh {α : Type} (xs : List α) (x : α) (i : Nat) :
    (xs ++ [x])[i]? = if i = xs.length then some x else xs[i]? := by
  rw [List.getElem?_append]
  split <;> rename_i hi
  · rw [if_neg (by omega)]
  · by_cases he : i = xs.length
    · simp [he]
    · rw [if_neg he,List.getElem?_eq_none (by simp; omega),List.getElem?_eq_none (by omega)]

theorem Linked.same {a b : Assembly} (h : Linked a) (hlisted : ∀ k, b.listed k = a.listed k)
    (hparent : ∀ d, b.parent? d = a.parent? d) : Linked b :=
  ⟨fun k d => by rw [hlisted,hparent,h.listed_iff],fun k => by rw [hlisted]; exact h.nodup k⟩

theorem listed_addHeader (a : Assembly) (header : Header) (k : Container) :
    (a.addHeader header).listed k = a.listed k := by
  cases k with
  | unit u => rfl
  | declaration d =>
    by_cases hd : d = a.declarations.length <;> simp [listed,addHeader,getElem?_append_fresh,hd]

theorem parent?_addHeader (a : Assembly) (header : Header) (d : Nat) :
    (a.addHeader header).parent? d = a.parent? d := by
  by_cases hd : d = a.declarations.length <;> simp [parent?,addHeader,getElem?_append_fresh,hd]

theorem Linked.addHeader {a : Assembly} (h : Linked a) (header : Header) :
    Linked (a.addHeader header) :=
  h.same (listed_addHeader a header) (parent?_addHeader a header)

theorem listed_addUnit (a : Assembly) (package : String) (imports : List Import) (k : Container) :
    (a.addUnit package imports).listed k = a.listed k := by
  cases k with
  | unit u => by_cases hu : u = a.units.length <;> simp [listed,addUnit,getElem?_append_fresh,hu]
  | declaration d => rfl

theorem Linked.addUnit {a : Assembly} (h : Linked a) (package : String) (imports : List Import) :
    Linked (a.addUnit package imports) :=
  h.same (listed_addUnit a package imports) fun _ => rfl

theorem linked_empty : Linked {} := by
  refine ⟨fun k d => ?_,fun k => ?_⟩
  · cases k <;> simp [listed,parent?]
  · cases k <;> simp [listed]

theorem parent?_addTree (d : Declaration) (a : Assembly) :
    (addTree d a).parent? a.declarations.length = none := by
  simp [addTree_eq,parent?]

theorem length_addTree (d : Declaration) (a : Assembly) :
    (addTree d a).declarations.length = a.declarations.length + d.size := by
  cases d
  simp [addTree_eq,layoutAmong_length,Declaration.size]

theorem Linked.addForest {a : Assembly} (h : Linked a) (ds : List Declaration) {p : Nat}
    (hp : p < a.declarations.length) : Linked (addForest p ds a) := by
  induction ds using Declaration.forest_induction generalizing a p with
  | nil => simpa [Assembly.addForest] using h
  | cons hd members ds ihm ihs =>
    have htree : Linked (addTree ⟨hd,members⟩ a) := by
      rw [addTree]
      exact ihm (h.addHeader hd) (by simp [Assembly.addHeader])
    have hlen := length_addTree ⟨hd,members⟩ a
    rw [Declaration.size] at hlen
    rw [addForest_cons]
    refine ihs (htree.attachMember (by omega) (by omega) (parent?_addTree _ a)) ?_
    simp only [Assembly.attachMember,List.length_modify]
    omega

theorem Linked.addTree {a : Assembly} (h : Linked a) (d : Declaration) : Linked (addTree d a) := by
  obtain ⟨hd,members⟩ := d
  rw [Assembly.addTree]
  exact (h.addHeader hd).addForest members (by simp [Assembly.addHeader])

theorem Linked.addTypes {a : Assembly} (h : Linked a) (ds : List Declaration) {u : Nat}
    (hu : u < a.units.length) : Linked (addTypes u ds a) := by
  induction ds generalizing a with
  | nil => exact h
  | cons d ds ih =>
    have hlen := length_addTree d a
    have hsize : 0 < d.size := by
      cases d
      simp [Declaration.size]
    have hunits : (Assembly.addTree d a).units = a.units := by rw [addTree_eq]
    refine ih ((h.addTree d).attachType (by rwa [hunits]) (by omega) (parent?_addTree d a)) ?_
    simpa [Assembly.attachType,hunits] using hu

end Assembly

namespace SourceUnit

theorem assembled_laidOut (u : SourceUnit) : u.assembled.LaidOut (.unit 0) 0 u.types :=
  ⟨[],[],rfl,by simp [assembled_eq]⟩

theorem assembled_represents (u : SourceUnit) : u.assembled.Represents 0 u := by
  refine ⟨{ package := u.package,imports := u.imports,types := Assembly.rootsFrom 0 u.types },
    by simp [assembled_eq],rfl,rfl,u.assembled_laidOut.standAll⟩

theorem assembled_walk (u : SourceUnit) : u.assembled.walk 0 = List.range u.walk.length := by
  have hunit : u.assembled.units[0]? = some
      { package := u.package,imports := u.imports,types := Assembly.rootsFrom 0 u.types } := by
    simp [assembled_eq]
  have hlen : u.assembled.declarations.length = Declaration.sizes u.types := by
    simp [assembled_eq,Assembly.layoutAmong_length]
  have hreach := u.assembled_laidOut.reach_eq u.assembled.declarations.length (Nat.le_of_eq hlen.symm)
  rw [walk,Declaration.walkFrom_length,List.range_eq_range',← hreach]
  simp only [Assembly.walk,hunit]
  rfl

theorem assembled_linked (u : SourceUnit) : u.assembled.Linked :=
  (Assembly.linked_empty.addUnit u.package u.imports).addTypes u.types (by simp [Assembly.addUnit])

end SourceUnit

end ClassDiagram
