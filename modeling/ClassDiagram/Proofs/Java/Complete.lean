import ClassDiagram.Proofs.Java.Reshaping

/-!
Trees that are read. Reading fails in one way only: an annotated type without a type in it, or a qualified name
without an identifier, is asked for its last child. No node is taken for a declaration that is none. A tree in
which every such node has the child is read, whatever else it lacks or holds. Both are said at once, by the
errors that are excused: none of them, or the missing child alone.
-/

namespace ClassDiagram.Java

section Failure

variable {α β : Type} {E : TreeError → Prop}

def FailsOnly (E : TreeError → Prop) (r : Result α) : Prop := ∀ e, r = .error e → E e

theorem failsOnly_ok (a : α) : FailsOnly E (.ok a) := fun _ h => by cases h

theorem FailsOnly.bind {r : Result α} {f : α → Result β} (hr : FailsOnly E r)
    (hf : ∀ a, FailsOnly E (f a)) : FailsOnly E (r >>= f) := by
  cases r with
  | error e =>
    intro e' h
    cases h
    exact hr e rfl
  | ok a => exact hf a

theorem FailsOnly.map {r : Result α} {f : α → β} (hr : FailsOnly E r) : FailsOnly E (r.map f) := by
  cases r with
  | error e =>
    intro e' h
    cases h
    exact hr e rfl
  | ok a => exact failsOnly_ok (f a)

theorem FailsOnly.succeeds {r : Result α} (hr : FailsOnly (fun _ => False) r) : ∃ a, r = .ok a := by
  cases r with
  | error e => exact (hr e rfl).elim
  | ok a => exact ⟨a,rfl⟩

theorem allOk_failsOnly {rs : List (Result α)} (h : ∀ r ∈ rs, FailsOnly E r) :
    FailsOnly E (allOk rs) := by
  induction rs with
  | nil => exact failsOnly_ok []
  | cons r rs ih =>
    obtain ⟨hr,hrs⟩ := List.forall_mem_cons.mp h
    exact hr.bind fun a => (ih hrs).bind fun as => failsOnly_ok (a :: as)

theorem allOk_map_failsOnly {f : α → Result β} {xs : List α} (h : ∀ x ∈ xs, FailsOnly E (f x)) :
    FailsOnly E (allOk (xs.map f)) := by
  refine allOk_failsOnly fun r hr => ?_
  obtain ⟨x,hx,rfl⟩ := List.mem_map.mp hr
  exact h x hx

end Failure

@[mk_iff]
structure Node.Complete (n : Node) : Prop where
  annotated : n.kind = .annotatedType → ∃ c ∈ n.namedChildren, c.kind.isAnnot = false
  qualified : n.kind = .scopedTypeIdentifier → ∃ c ∈ n.namedChildren, c.kind = .typeIdentifier

instance : DecidablePred Node.Complete := fun n => decidable_of_iff _ n.complete_iff.symm

-- Every node in the tree is complete, unless a missing child is excused.
abbrev Node.Excused (E : TreeError → Prop) (n : Node) : Prop :=
  n.Throughout fun m => E .missingChild ∨ m.Complete

theorem missing_excused (n : Node) : n.Excused (· = .missingChild) := by
  induction n using Node.size_induction with
  | step n ih => exact .intro (.inl rfl) fun c hc => ih c (Node.sizeOf_lt_of_mem_children hc)

theorem Node.excused_of_complete {E : TreeError → Prop} {n : Node} (h : n.Throughout Node.Complete) :
    n.Excused E := by
  induction h with
  | intro hn _ ih => exact .intro (.inr hn) ih

section Types

variable {α : Type} {E : TreeError → Prop} {n : Node}

theorem meaningOf_failsOnly {read : Node → Result α} (h : E .missingChild ∨ n.Complete)
    (hk : n.kind = .annotatedType) (hread : ∀ c ∈ n.children, FailsOnly E (read c)) :
    FailsOnly E (meaningOf read n) := by
  rw [meaningOf]
  cases hl : n.meaningful.getLast? with
  | none =>
    rcases h with hE | hcomplete
    · intro e he
      cases he
      exact hE
    · obtain ⟨c,hc,hannot⟩ := hcomplete.annotated hk
      have hmem : c ∈ n.meaningful := by
        rw [Node.meaningful,List.mem_filter]
        exact ⟨Node.mem_children_of_named hc,by simp [isMeaningful,(List.mem_filter.mp hc).2,hannot]⟩
      rw [List.getLast?_eq_none_iff.mp hl] at hmem
      cases hmem
  | some last => exact hread last (Node.mem_children_of_meaningful (List.mem_of_getLast? hl))

theorem wildcardBounds_failsOnly {cs : List (Reading String)} (h : ∀ c ∈ cs, FailsOnly E c.value)
    (word : Option String) : FailsOnly E (wildcardBounds word cs) := by
  induction cs generalizing word with
  | nil => exact failsOnly_ok ""
  | cons c cs ih =>
    obtain ⟨hc,hcs⟩ := List.forall_mem_cons.mp h
    unfold wildcardBounds
    split
    · exact ih hcs _
    · exact ih hcs _
    · exact ih hcs _
    · split
      · exact hc.bind fun _ => (ih hcs _).bind fun _ => failsOnly_ok _
      · exact ih hcs _

theorem typeText_failsOnly (h : n.Excused E) : FailsOnly E (typeText n) := by
  induction n using Node.size_induction with
  | step n ih =>
    have hchild : ∀ c ∈ n.children, FailsOnly E (typeText c) := fun c hc =>
      ih c (Node.sizeOf_lt_of_mem_children hc) (h.inside c hc)
    by_cases ha : n.kind = .annotatedType
    · rw [typeText_annotated ha]
      exact meaningOf_failsOnly h.here ha hchild
    by_cases hg : n.kind = .genericType
    · have harguments : FailsOnly E (allOk (n.argumentNodes.map typeText)) :=
        allOk_map_failsOnly fun c hc =>
          ih c (Node.sizeOf_lt_of_mem_argumentNodes hc) (h.arguments c hc)
      rw [typeText_generic hg]
      split
      · exact harguments.bind fun _ => failsOnly_ok _
      · rename_i c hc
        exact (hchild c (List.mem_of_find?_eq_some hc)).bind fun _ =>
          harguments.bind fun _ => failsOnly_ok _
    by_cases hs : n.kind = .scopedTypeIdentifier
    · rw [typeText_scoped hs]
      exact (allOk_map_failsOnly fun c hc => hchild c (Node.mem_children_of_meaningful hc)).bind
        fun _ => failsOnly_ok _
    by_cases hb : n.kind = .arrayType
    · rw [typeText_array hb]
      refine FailsOnly.bind ?_ fun _ => failsOnly_ok _
      cases he : n.child? .element with
      | none => exact failsOnly_ok ""
      | some c => exact hchild c (Node.mem_children_of_role he)
    by_cases hw : n.kind = .wildcard
    · rw [typeText_wildcard hw]
      refine (wildcardBounds_failsOnly (fun r hr => ?_) none).bind fun _ => failsOnly_ok _
      obtain ⟨c,hc,rfl⟩ := List.mem_map.mp hr
      exact hchild c hc
    · rw [typeText_plain (by cases hk : n.kind <;> simp_all [Kind.isComposite])]
      exact failsOnly_ok _

theorem simpleName_failsOnly (h : E .missingChild ∨ n.Complete) : FailsOnly E (simpleName n) := by
  rw [simpleName]
  split
  · rename_i hk
    split
    · rename_i hl
      rcases h with hE | hcomplete
      · intro e he
        cases he
        exact hE
      · obtain ⟨c,hc,hid⟩ := hcomplete.qualified hk
        have hmem : c ∈ n.children.filter fun c => c.named && c.kind = .typeIdentifier := by
          rw [List.mem_filter]
          exact ⟨Node.mem_children_of_named hc,by simp [(List.mem_filter.mp hc).2,hid]⟩
        rw [List.getLast?_eq_none_iff.mp hl] at hmem
        cases hmem
    · exact failsOnly_ok _
  · exact failsOnly_ok _

theorem typeRef_failsOnly (h : n.Excused E) : FailsOnly E (typeRef n) := by
  induction n using Node.size_induction with
  | step n ih =>
    have htext := typeText_failsOnly h
    by_cases ha : n.kind = .annotatedType
    · rw [typeRef_annotated ha]
      exact meaningOf_failsOnly h.here ha fun c hc =>
        ih c (Node.sizeOf_lt_of_mem_children hc) (h.inside c hc)
    by_cases hn : n.kind = .typeIdentifier ∨ n.kind = .scopedTypeIdentifier
    · rw [typeRef_named hn]
      exact htext.bind fun _ => (simpleName_failsOnly h.here).bind fun _ => failsOnly_ok _
    by_cases hg : n.kind = .genericType
    · have harguments : FailsOnly E (allOk (n.argumentNodes.map typeRef)) :=
        allOk_map_failsOnly fun c hc =>
          ih c (Node.sizeOf_lt_of_mem_argumentNodes hc) (h.arguments c hc)
      rw [typeRef_generic hg]
      refine htext.bind fun _ => ?_
      split
      · exact harguments.bind fun _ => failsOnly_ok _
      · rename_i c hc
        have hname := simpleName_failsOnly (h.inside c (List.mem_of_find?_eq_some hc)).here
        exact hname.map.bind fun _ => harguments.bind fun _ => failsOnly_ok _
    · rw [typeRef_unnamed ha (fun hk => hn (.inl hk)) (fun hk => hn (.inr hk)) hg]
      exact htext.map

theorem elementRef_failsOnly (h : n.Excused E) : FailsOnly E (elementRef n) := by
  induction n using Node.size_induction with
  | step n ih =>
    have hchild : ∀ c ∈ n.children, FailsOnly E (elementRef c) := fun c hc =>
      ih c (Node.sizeOf_lt_of_mem_children hc) (h.inside c hc)
    by_cases ha : n.kind = .annotatedType
    · rw [elementRef_annotated ha]
      exact meaningOf_failsOnly h.here ha hchild
    by_cases hb : n.kind = .arrayType
    · rw [elementRef_array hb]
      cases he : n.child? .element with
      | none => exact failsOnly_ok _
      | some c => exact hchild c (Node.mem_children_of_role he)
    · rw [elementRef_plain ha hb]
      exact typeRef_failsOnly h

theorem typesListed_failsOnly (h : n.Excused E) : FailsOnly E (typesListed n) := by
  rw [typesListed_eq]
  exact allOk_map_failsOnly fun t ht => typeRef_failsOnly (h.listedTypes t ht)

end Types

section Members

variable {E : TreeError → Prop} {n : Node} {t : Option Node}

theorem typeText?_failsOnly (h : ∀ n ∈ t, n.Excused E) : FailsOnly E (typeText? t) := by
  cases t with
  | none => exact failsOnly_ok ""
  | some n => exact typeText_failsOnly (h n rfl)

theorem typeRef?_failsOnly (h : ∀ n ∈ t, n.Excused E) : FailsOnly E (typeRef? t) := by
  cases t with
  | none => exact failsOnly_ok _
  | some n => exact typeRef_failsOnly (h n rfl)

theorem elementRef?_failsOnly (h : ∀ n ∈ t, n.Excused E) : FailsOnly E (elementRef? t) := by
  cases t with
  | none => exact failsOnly_ok _
  | some n => exact elementRef_failsOnly (h n rfl)

theorem parameterOf_failsOnly (h : n.Excused E) : FailsOnly E (parameterOf n) := by
  have htype : ∀ t ∈ n.child? .type, t.Excused E := fun _ ht => h.child ht
  rw [parameterOf]
  split
  · dsimp only
    split
    · exact (typeRef?_failsOnly htype).bind fun _ => failsOnly_ok _
    · exact (typeText?_failsOnly htype).map.bind fun _ => failsOnly_ok _
  · refine (typeRef?_failsOnly fun t ht => ?_).bind fun _ => failsOnly_ok _
    exact h.inside t (Node.mem_children_of_named (List.mem_of_find?_eq_some ht))
  · exact failsOnly_ok none

theorem parametersOf_failsOnly (h : ∀ n ∈ t, n.Excused E) : FailsOnly E (parametersOf t) := by
  cases t with
  | none => exact failsOnly_ok []
  | some list =>
    refine (allOk_map_failsOnly fun c hc => ?_).bind fun _ => failsOnly_ok _
    exact parameterOf_failsOnly ((h list rfl).inside c (Node.mem_children_of_named hc))

theorem fieldOf_failsOnly (h : n.Excused E) : FailsOnly E (fieldOf n) :=
  (typeText?_failsOnly fun _ ht => h.child ht).bind fun _ =>
    (elementRef?_failsOnly fun _ ht => h.child ht).bind fun _ => failsOnly_ok _

theorem methodOf_failsOnly (h : n.Excused E) : FailsOnly E (methodOf n) :=
  (typeRef?_failsOnly fun _ ht => h.child ht).bind fun _ =>
    (parametersOf_failsOnly fun _ ht => h.child ht).bind fun _ => failsOnly_ok _

theorem constructorOf_failsOnly (h : n.Excused E) : FailsOnly E (constructorOf n) :=
  (parametersOf_failsOnly fun _ ht => h.child ht).bind fun _ => failsOnly_ok _

theorem componentsOf_failsOnly (h : n.Excused E) (form : Form) :
    FailsOnly E (componentsOf form n) := by
  rw [componentsOf]
  split
  · refine (allOk_map_failsOnly fun list hlist => ?_).bind fun _ => failsOnly_ok _
    refine parametersOf_failsOnly fun c hc => ?_
    rw [← Option.mem_some.mp hc]
    exact h.inside list (List.mem_filter.mp hlist).1
  · exact failsOnly_ok []

end Members

section Declarations

variable {E : TreeError → Prop} {n : Node}

theorem typesListed_children_failsOnly (h : n.Excused E) (p : Node → Bool) :
    FailsOnly E (allOk ((n.children.filter p).map typesListed)) :=
  allOk_map_failsOnly fun c hc => typesListed_failsOnly (h.inside c (List.mem_filter.mp hc).1)

theorem declarationOf_failsOnly (h : n.Excused E)
    (hbody : ∀ b, n.child? .body = some b → FailsOnly E (bodyOf b)) (form : Form) :
    FailsOnly E (declarationOf form n) := by
  have hown : FailsOnly E (ownBody n) := by
    rw [ownBody]
    split
    · exact failsOnly_ok _
    · rename_i b hb
      exact hbody b hb
  rw [declarationOf_eq]
  exact (typesListed_children_failsOnly h _).bind fun _ => (typesListed_children_failsOnly h _).bind fun _ =>
    (componentsOf_failsOnly h form).bind fun _ => hown.bind fun _ => failsOnly_ok _

theorem partOf_failsOnly (h : n.Excused E)
    (hinner : n.kind = .enumBodyDecls → FailsOnly E (bodyOf n))
    (hbody : ∀ b, n.child? .body = some b → FailsOnly E (bodyOf b)) : FailsOnly E (partOf n) := by
  cases hmember : n.kind.isMember with
  | true =>
    unfold Kind.isMember at hmember
    split at hmember <;> rename_i hk
    · exact partOf_constant hk ▸ failsOnly_ok _
    · exact partOf_enumBody hk ▸ hinner hk
    · exact partOf_field (.inl hk) ▸ (fieldOf_failsOnly h).map
    · exact partOf_field (.inr hk) ▸ (fieldOf_failsOnly h).map
    · exact partOf_method hk ▸ (methodOf_failsOnly h).map
    · exact partOf_constructor hk ▸ (constructorOf_failsOnly h).map
    · cases hmember
  | false =>
    cases hf : formOf? n.kind with
    | none => exact partOf_idle hmember hf ▸ failsOnly_ok _
    | some form => exact partOf_declaration hf ▸ (declarationOf_failsOnly h hbody form).map

theorem bodyOf_failsOnly (h : n.Excused E) : FailsOnly E (bodyOf n) := by
  induction n using Node.size_induction with
  | step n ih =>
    rw [bodyOf_eq]
    refine (allOk_map_failsOnly fun c hc => ?_).map
    have hmem := Node.mem_children_of_named hc
    have hlt := Node.sizeOf_lt_of_mem_children hmem
    have hcomplete := h.inside c hmem
    refine partOf_failsOnly hcomplete (fun _ => ih c hlt hcomplete) fun b hb => ?_
    exact ih b (Nat.lt_trans (Node.sizeOf_lt_of_mem_children (Node.mem_children_of_role hb)) hlt)
      (hcomplete.child hb)

theorem typeOf_failsOnly (h : n.Excused E) (hn : n.declaresType = true) : FailsOnly E (typeOf n) := by
  obtain ⟨form,hf⟩ := Option.isSome_iff_exists.mp hn
  rw [typeOf_eq hf]
  exact declarationOf_failsOnly h (fun b hb => bodyOf_failsOnly (h.child hb)) form

theorem unitOf_failsOnly (h : n.Excused E) (path : String) : FailsOnly E (unitOf path n) := by
  refine (allOk_map_failsOnly fun c hc => ?_).bind fun _ => failsOnly_ok _
  obtain ⟨hnamed,hdeclares⟩ := List.mem_filter.mp hc
  exact typeOf_failsOnly (h.inside c (Node.mem_children_of_named hnamed)) hdeclares

end Declarations

end ClassDiagram.Java
