import ClassDiagram.Proofs.Assembly.Visit
import Mathlib.Data.List.Nodup

/-!
The order in which the declarations below a well-formed unit are met. What is below a container is, for each
declaration that it lists, the declaration itself and what is below that one; no bound on the depth shows.
So a worklist that is read from the front meets the same declarations in the same order and comes to its end,
and each declaration is met once, after the one that lists it and in the order of that list.
-/

namespace ClassDiagram.Assembly

variable {a : Assembly} {u d x : Nat} {k : Container} {ds : List Nat}

def content (a : Assembly) (k : Container) : List Nat := (a.listed k).flatMap a.preorder

theorem walk_eq_content (a : Assembly) (u : Nat) : a.walk u = a.content (.unit u) := by
  rw [walk,content,listed]
  cases a.units[u]? <;> rfl

-- Chains are no longer than the assembly, so a property can be carried from what is listed to what lists it.
theorem WellFormed.descent {P : Container → List Nat → Prop} (w : a.WellFormed u)
    (step : ∀ k ds, Chain a u k ds → (∀ d ∈ a.listed k, P (.declaration d) (d :: ds)) → P k ds)
    (hc : Chain a u k ds) : P k ds := by
  have hbounded : ∀ depth k ds, Chain a u k ds → a.declarations.length ≤ depth + ds.length →
      P k ds := by
    intro depth
    induction depth with
    | zero =>
      intro k ds hc hlen
      refine step k ds hc fun d hd => ?_
      have hlonger := w.chain_length_le (.declaration hc hd)
      rw [List.length_cons] at hlonger
      omega
    | succ depth ih =>
      intro k ds hc hlen
      refine step k ds hc fun d hd => ih _ _ (.declaration hc hd) ?_
      rw [List.length_cons]
      omega
  exact hbounded a.declarations.length k ds hc (Nat.le_add_right _ _)

theorem WellFormed.exists_declaration (w : a.WellFormed u) (hc : Chain a u k ds) (hd : d ∈ a.listed k) :
    ∃ n, a.declarations[d]? = some n ∧ a.listed (.declaration d) = n.members := by
  obtain ⟨n,hn,_⟩ := parent?_eq_some.mp (w.linked _ _ hc d hd)
  exact ⟨n,hn,listed_declaration hn⟩

theorem WellFormed.reach_stable (w : a.WellFormed u) (hc : Chain a u k ds) :
    ∀ d ∈ a.listed k, ∀ m n, a.declarations.length ≤ m + ds.length →
      a.declarations.length ≤ n + ds.length → a.reach m d = a.reach n d := by
  refine w.descent (P := fun k ds => ∀ d ∈ a.listed k, ∀ m n, a.declarations.length ≤ m + ds.length →
    a.declarations.length ≤ n + ds.length → a.reach m d = a.reach n d) ?_ hc
  intro k ds hc ih d hd m n hm hn
  obtain ⟨node,hnode,hlisted⟩ := w.exists_declaration hc hd
  obtain ⟨m',hm',hleft⟩ := w.reach_eq hc hd hnode hm
  obtain ⟨n',hn',hright⟩ := w.reach_eq hc hd hnode hn
  rw [hm',hn']
  refine congrArg (d :: ·) (List.flatMap_congr fun e he => ?_)
  exact ih d hd e (hlisted ▸ he) m' n' hleft hright

theorem WellFormed.preorder_eq (w : a.WellFormed u) (hc : Chain a u k ds) (hd : d ∈ a.listed k) :
    a.preorder d = d :: a.content (.declaration d) := by
  obtain ⟨n,hn,hlisted⟩ := w.exists_declaration hc hd
  obtain ⟨left,hreach,hleft⟩ := w.reach_eq hc hd hn (Nat.le_add_right a.declarations.length ds.length)
  rw [preorder,hreach,content,hlisted]
  refine congrArg (d :: ·) (List.flatMap_congr fun e he => ?_)
  exact w.reach_stable (.declaration hc hd) e (hlisted ▸ he) _ _ hleft (Nat.le_add_right _ _)

theorem chain_of_mem_reach {depth : Nat} (hc : Chain a u k ds) (hd : d ∈ a.listed k)
    (hx : x ∈ a.reach depth d) : ∃ more, Chain a u (.declaration x) (more ++ d :: ds) := by
  induction depth generalizing k ds d with
  | zero => simp [reach] at hx
  | succ depth ih =>
    rw [reach] at hx
    split at hx
    · cases hx
    · rename_i n hn
      rcases List.mem_cons.mp hx with rfl | hx
      · exact ⟨[],.declaration hc hd⟩
      · obtain ⟨e,he,hx⟩ := List.mem_flatMap.mp hx
        obtain ⟨more,hmore⟩ := ih (.declaration hc hd) (by rwa [listed_declaration hn]) hx
        exact ⟨more ++ [e],by simpa using hmore⟩

theorem chain_of_mem_content (hc : Chain a u k ds) (hx : x ∈ a.content k) :
    ∃ d ∈ a.listed k, ∃ more, Chain a u (.declaration x) (more ++ d :: ds) := by
  obtain ⟨d,hd,hx⟩ := List.mem_flatMap.mp hx
  exact ⟨d,hd,chain_of_mem_reach hc hd hx⟩

theorem WellFormed.nodup_content (w : a.WellFormed u) (hlists : ∀ k, (a.listed k).Nodup)
    (hc : Chain a u k ds) : (a.content k).Nodup := by
  refine w.descent (P := fun k _ => (a.content k).Nodup) ?_ hc
  intro k ds hc ih
  refine List.nodup_flatMap.mpr ⟨?_,?_⟩
  · intro d hd
    rw [w.preorder_eq hc hd]
    refine List.nodup_cons.mpr ⟨fun hself => ?_,ih d hd⟩
    obtain ⟨e,_,more,hlong⟩ := chain_of_mem_content (.declaration hc hd) hself
    have hlength := congrArg List.length (w.chain_unique (.declaration hc hd) hlong)
    simp only [List.length_append,List.length_cons] at hlength
    omega
  · refine (hlists k).imp_of_mem ?_
    intro d e hd he hne x hxd hxe
    obtain ⟨more,hmore⟩ := chain_of_mem_reach hc hd hxd
    obtain ⟨other,hother⟩ := chain_of_mem_reach hc he hxe
    have hsame := w.chain_unique hmore hother
    exact hne (List.cons.inj (List.append_inj_right' hsame (by simp))).1

theorem WellFormed.preorder_infix (w : a.WellFormed u) (hc : Chain a u k ds) :
    a.content k <:+: a.walk u ∧ ∀ d ∈ a.listed k, a.preorder d <:+: a.walk u := by
  have hpart : ∀ {k : Container} {d : Nat}, d ∈ a.listed k → a.preorder d <:+: a.content k := by
    intro k d hd
    obtain ⟨before,after,hsplit⟩ := List.append_of_mem hd
    rw [content,hsplit,List.flatMap_append,List.flatMap_cons]
    exact ⟨_,_,List.append_assoc ..⟩
  have hwhole : a.content k <:+: a.walk u := by
    induction hc with
    | unit => exact (walk_eq_content a u).symm ▸ List.infix_rfl
    | @declaration k ds d hk hd ih =>
      have htail : a.content (.declaration d) <:+: a.preorder d := by
        rw [w.preorder_eq hk hd]
        exact (List.suffix_cons _ _).isInfix
      exact (htail.trans (hpart hd)).trans ih
  exact ⟨hwhole,fun d hd => (hpart hd).trans hwhole⟩

theorem WellFormed.mem_walk_iff (w : a.WellFormed u) :
    x ∈ a.walk u ↔ ∃ ds, Chain a u (.declaration x) (x :: ds) := by
  constructor
  · intro hx
    rw [walk_eq_content] at hx
    obtain ⟨d,_,more,hchain⟩ := chain_of_mem_content .unit hx
    cases hchain' : more ++ [d] with
    | nil => simp at hchain'
    | cons y ys =>
      rw [hchain'] at hchain
      cases hchain with
      | declaration hk hx => exact ⟨ys,.declaration hk hx⟩
  · rintro ⟨ds,hchain⟩
    cases hchain with
    | declaration hk hx =>
      refine ((w.preorder_infix hk).2 x hx).subset ?_
      rw [w.preorder_eq hk hx]
      exact List.mem_cons_self

theorem WellFormed.member_after_container (w : a.WellFormed u) (hc : Chain a u k ds)
    (hd : d ∈ a.listed k) (hx : x ∈ a.listed (.declaration d)) : [d,x].Sublist (a.walk u) := by
  have hmember : x ∈ a.content (.declaration d) := by
    refine List.mem_flatMap.mpr ⟨x,hx,?_⟩
    rw [w.preorder_eq (.declaration hc hd) hx]
    exact List.mem_cons_self
  have hinside := ((w.preorder_infix hc).2 d hd).sublist
  rw [w.preorder_eq hc hd] at hinside
  exact ((List.singleton_sublist.mpr hmember).cons_cons d).trans hinside

theorem WellFormed.listed_sublist (w : a.WellFormed u) (hc : Chain a u k ds) :
    (a.listed k).Sublist (a.walk u) := by
  have hheads : ∀ ids : List Nat, (∀ d ∈ ids, d ∈ a.listed k) →
      ids.Sublist (ids.flatMap a.preorder) := by
    intro ids hids
    induction ids with
    | nil => exact List.Sublist.slnil
    | cons d ids ih =>
      have hrest := ih fun e he => hids e (List.mem_cons_of_mem _ he)
      rw [List.flatMap_cons,w.preorder_eq hc (hids d List.mem_cons_self),List.cons_append]
      exact (hrest.trans (List.sublist_append_right _ _)).cons_cons d
  exact (hheads _ fun _ hd => hd).trans (w.preorder_infix hc).1.sublist

-- A worklist that is read from the front; a derivation of it is a run that comes to its end.
inductive Walks (a : Assembly) : List Nat → List Nat → Prop
  | done : Walks a [] []
  | visit {d : Nat} {n : AssembledDecl} {rest met : List Nat} :
      a.declarations[d]? = some n → Walks a (n.members ++ rest) met → Walks a (d :: rest) (d :: met)

theorem walks_flatMap {ids rest met : List Nat}
    (h : ∀ d ∈ ids, ∀ rest met, Walks a rest met → Walks a (d :: rest) (a.preorder d ++ met))
    (hrest : Walks a rest met) : Walks a (ids ++ rest) (ids.flatMap a.preorder ++ met) := by
  induction ids with
  | nil => exact hrest
  | cons d ids ih =>
    have hafter := ih fun e he => h e (List.mem_cons_of_mem _ he)
    rw [List.flatMap_cons,List.append_assoc]
    exact h d List.mem_cons_self _ _ hafter

theorem WellFormed.walks_content (w : a.WellFormed u) (hc : Chain a u k ds) :
    ∀ rest met, Walks a rest met → Walks a (a.listed k ++ rest) (a.content k ++ met) := by
  refine w.descent (P := fun k _ => ∀ rest met, Walks a rest met →
    Walks a (a.listed k ++ rest) (a.content k ++ met)) ?_ hc
  intro k ds hc ih rest met hrest
  refine walks_flatMap (fun d hd rest met hafter => ?_) hrest
  obtain ⟨n,hn,hlisted⟩ := w.exists_declaration hc hd
  have hinside := ih d hd _ _ hafter
  rw [w.preorder_eq hc hd,List.cons_append]
  exact .visit hn (hlisted ▸ hinside)

theorem WellFormed.walks (w : a.WellFormed u) : Walks a (a.listed (.unit u)) (a.walk u) := by
  have h := w.walks_content .unit [] [] .done
  rwa [List.append_nil,List.append_nil,← walk_eq_content] at h

end ClassDiagram.Assembly
