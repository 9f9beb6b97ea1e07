import ClassDiagram.Proofs.Diagram.Modifiers
import ClassDiagram.Proofs.Java.Reshaping

/-!
Trees without their comments. Taking all comments out of a tree leaves every other node in its place, with
its kind, its role and its text. A type is then read as before, provided that no comment was taken for a
part of it: for a type argument, for a segment of a qualified name or for the type that is annotated.
-/

namespace ClassDiagram.Java

def Kind.isComment (k : Kind) : Bool := k = .lineComment || k = .blockComment

theorem Kind.isComment_iff {k : Kind} : k.isComment = true ↔ k = .lineComment ∨ k = .blockComment := by
  simp [isComment]

def Kind.Skips (p : Kind → Bool) : Prop := p .lineComment = false ∧ p .blockComment = false

theorem Kind.Skips.not_comment {p : Kind → Bool} (h : Skips p) {k : Kind} (hk : p k = true) :
    k.isComment = false := by
  cases hc : k.isComment with
  | false => rfl
  | true =>
    rcases isComment_iff.mp hc with rfl | rfl
    · rw [h.1] at hk
      cases hk
    · rw [h.2] at hk
      cases hk

theorem Kind.Skips.of_comment {p : Kind → Bool} (h : Skips p) {k : Kind} (hk : k.isComment = true) :
    p k = false := by
  rcases isComment_iff.mp hk with rfl | rfl
  · exact h.1
  · exact h.2

namespace Node

def isKept (c : Node) : Bool := !c.kind.isComment

mutual

def uncommented : Node → Node
  | ⟨kind, named, role, text, children⟩ => ⟨kind,named,role,text,uncommentedAll children⟩

def uncommentedAll : List Node → List Node
  | [] => []
  | c :: cs => if c.isKept then c.uncommented :: uncommentedAll cs else uncommentedAll cs

end

@[simp]
theorem uncommented_kind (n : Node) : n.uncommented.kind = n.kind := by
  cases n
  rw [uncommented]

@[simp]
theorem uncommented_named (n : Node) : n.uncommented.named = n.named := by
  cases n
  rw [uncommented]

@[simp]
theorem uncommented_role (n : Node) : n.uncommented.role = n.role := by
  cases n
  rw [uncommented]

@[simp]
theorem uncommented_text (n : Node) : n.uncommented.text = n.text := by
  cases n
  rw [uncommented]

theorem uncommentedAll_eq (cs : List Node) :
    uncommentedAll cs = (cs.filter isKept).map uncommented := by
  induction cs with
  | nil => rfl
  | cons c cs ih =>
    rw [uncommentedAll,ih,List.filter_cons]
    split <;> rfl

theorem uncommented_children (n : Node) :
    n.uncommented.children = (n.children.filter isKept).map uncommented := by
  cases n
  rw [uncommented,uncommentedAll_eq]

theorem uncommented_has_no_comments (n : Node) :
    n.uncommented.Throughout fun m => ∀ c ∈ m.children, c.kind.isComment = false := by
  induction n using Node.size_induction with
  | step n ih =>
    refine .intro (fun c hc => ?_) fun c hc => ?_
    · rw [uncommented_children] at hc
      obtain ⟨d,hd,rfl⟩ := List.mem_map.mp hc
      simpa [isKept] using (List.mem_filter.mp hd).2
    · rw [uncommented_children] at hc
      obtain ⟨d,hd,rfl⟩ := List.mem_map.mp hc
      exact ih d (sizeOf_lt_of_mem_children (List.mem_filter.mp hd).1)

theorem filter_uncommented (n : Node) {p : Node → Bool} (hp : ∀ c, p c.uncommented = p c) :
    n.uncommented.children.filter p = ((n.children.filter p).filter isKept).map uncommented := by
  have hcomp : p ∘ uncommented = p := funext hp
  rw [uncommented_children,List.filter_map,hcomp,List.filter_filter,List.filter_filter]
  simp only [Bool.and_comm]

theorem namedChildren_uncommented (n : Node) :
    n.uncommented.namedChildren = (n.namedChildren.filter isKept).map uncommented :=
  filter_uncommented n uncommented_named

theorem flatMap_isKept {α : Type} {f : Node → List α} {cs : List Node}
    (h : ∀ c ∈ cs, c.kind.isComment = true → f c = []) :
    (cs.filter isKept).flatMap f = cs.flatMap f := by
  induction cs with
  | nil => rfl
  | cons c cs ih =>
    have hrest := ih fun d hd => h d (List.mem_cons_of_mem _ hd)
    cases hk : c.kind.isComment with
    | false =>
      rw [List.filter_cons_of_pos (by simp [isKept,hk]),List.flatMap_cons,List.flatMap_cons,hrest]
    | true =>
      rw [List.filter_cons_of_neg (by simp [isKept,hk]),List.flatMap_cons,h c (by simp) hk,hrest,
        List.nil_append]

theorem filter_isKept {cs : List Node} (h : ∀ c ∈ cs, c.kind.isComment = false) :
    cs.filter isKept = cs :=
  List.filter_eq_self.mpr fun c hc => by simp [isKept,h c hc]

section

variable {p : Node → Bool} (hp : ∀ c, p c.uncommented = p c) {cs : List Node}
  (hc : ∀ c ∈ cs, p c = true → c.kind.isComment = false)

include hp hc

theorem filter_uncommented_of :
    ((cs.filter isKept).map uncommented).filter p = (cs.filter p).map uncommented := by
  have hkept : (cs.filter p).filter isKept = cs.filter p := filter_isKept fun c hmem =>
    hc c (List.mem_filter.mp hmem).1 (List.mem_filter.mp hmem).2
  rw [List.filter_map,show p ∘ uncommented = p from funext hp,← hkept,List.filter_filter,
    List.filter_filter]
  simp only [Bool.and_comm]

theorem find?_uncommented_of :
    ((cs.filter isKept).map uncommented).find? p = (cs.find? p).map uncommented := by
  rw [← List.head?_filter,filter_uncommented_of hp hc,List.head?_map,List.head?_filter]

end

section

variable (n : Node) {p : Kind → Bool} (hp : Kind.Skips p)

include hp

theorem filter_kind_uncommented :
    n.uncommented.children.filter (fun c => p c.kind) =
      (n.children.filter fun c => p c.kind).map uncommented := by
  rw [uncommented_children]
  exact filter_uncommented_of (fun c => by rw [uncommented_kind]) fun _ _ hc => hp.not_comment hc

theorem find?_kind_uncommented :
    n.uncommented.children.find? (fun c => p c.kind) =
      (n.children.find? fun c => p c.kind).map uncommented := by
  rw [uncommented_children]
  exact find?_uncommented_of (fun c => by rw [uncommented_kind]) fun _ _ hc => hp.not_comment hc

theorem filter_namedChildren_uncommented :
    n.uncommented.namedChildren.filter (fun c => p c.kind) =
      (n.namedChildren.filter fun c => p c.kind).map uncommented := by
  rw [namedChildren_uncommented]
  exact filter_uncommented_of (fun c => by rw [uncommented_kind]) fun _ _ hc => hp.not_comment hc

theorem find?_namedChildren_uncommented :
    n.uncommented.namedChildren.find? (fun c => p c.kind) =
      (n.namedChildren.find? fun c => p c.kind).map uncommented := by
  rw [namedChildren_uncommented]
  exact find?_uncommented_of (fun c => by rw [uncommented_kind]) fun _ _ hc => hp.not_comment hc

theorem filter_named_uncommented :
    n.uncommented.children.filter (fun c => c.named && p c.kind) =
      (n.children.filter fun c => c.named && p c.kind).map uncommented := by
  rw [uncommented_children]
  exact filter_uncommented_of (fun c => by rw [uncommented_named,uncommented_kind]) fun _ _ hc =>
    hp.not_comment (Bool.and_eq_true_iff.mp hc).2

theorem any_kind_uncommented :
    n.uncommented.children.any (fun c => p c.kind) = n.children.any fun c => p c.kind := by
  have hkept : ∀ c : Node, (c.isKept && p c.kind) = p c.kind := by
    intro c
    cases hk : c.kind.isComment with
    | false => simp [isKept,hk]
    | true => simp [hp.of_comment hk]
  rw [uncommented_children,List.any_map,List.any_filter]
  simp only [Function.comp_apply,uncommented_kind,hkept]

end

def SetsCommentsApart (n : Node) : Prop :=
  ∀ c ∈ n.children, c.kind.isComment = true → c.role = none ∧ isTelling c.text = false

def TakesNoComment (n : Node) : Prop :=
  (n.kind = .scopedTypeIdentifier ∨ n.kind = .typeArguments →
    ∀ c ∈ n.meaningful, c.kind.isComment = false) ∧
  (n.kind = .annotatedType → ∀ c ∈ n.meaningful.getLast?, c.kind.isComment = false)

instance : DecidablePred SetsCommentsApart := fun n =>
  inferInstanceAs (Decidable (∀ c ∈ n.children, c.kind.isComment = true →
    c.role = none ∧ isTelling c.text = false))

instance : DecidablePred TakesNoComment := fun n =>
  inferInstanceAs (Decidable ((n.kind = .scopedTypeIdentifier ∨ n.kind = .typeArguments →
      ∀ c ∈ n.meaningful, c.kind.isComment = false) ∧
    (n.kind = .annotatedType → ∀ c ∈ n.meaningful.getLast?, c.kind.isComment = false)))

theorem SetsCommentsApart.not_comment {n c : Node} (h : n.SetsCommentsApart) (hc : c ∈ n.children)
    {role : Role} (hr : c.role = some role) : c.kind.isComment = false := by
  cases hk : c.kind.isComment with
  | false => rfl
  | true =>
    have hnone := (h c hc hk).1
    rw [hr] at hnone
    cases hnone

theorem child?_uncommented {n : Node} (h : n.SetsCommentsApart) (role : Role) :
    n.uncommented.child? role = (n.child? role).map uncommented := by
  rw [child?,uncommented_children]
  exact find?_uncommented_of (fun c => by rw [uncommented_role]) fun c hc hr =>
    h.not_comment hc (of_decide_eq_true hr)

theorem childrenIn_uncommented {n : Node} (h : n.SetsCommentsApart) (role : Role) :
    n.uncommented.childrenIn role = (n.childrenIn role).map uncommented := by
  rw [childrenIn,uncommented_children]
  exact filter_uncommented_of (fun c => by rw [uncommented_role]) fun c hc hr =>
    h.not_comment hc (of_decide_eq_true hr)

theorem isMeaningful_uncommented (c : Node) : isMeaningful c.uncommented = isMeaningful c := by
  simp only [isMeaningful,uncommented_named,uncommented_kind]

theorem meaningful_uncommented {n : Node} (h : ∀ c ∈ n.meaningful, c.kind.isComment = false) :
    n.uncommented.meaningful = n.meaningful.map uncommented := by
  rw [meaningful,filter_uncommented n isMeaningful_uncommented,← meaningful,filter_isKept h]

theorem getLast?_filter_of_last {cs : List Node}
    (h : ∀ c ∈ cs.getLast?, c.kind.isComment = false) :
    (cs.filter isKept).getLast? = cs.getLast? := by
  rcases List.eq_nil_or_concat cs with rfl | ⟨front,last,rfl⟩
  · rfl
  · have hlast : last.kind.isComment = false := h last (by simp)
    simp [List.filter_append,isKept,hlast]

theorem argumentList?_uncommented (n : Node) :
    n.uncommented.argumentList? = n.argumentList?.map uncommented := by
  rw [argumentList?,argumentList?,← List.getLast?_map]
  exact congrArg List.getLast? (n.filter_named_uncommented (p := (· = .typeArguments)) ⟨rfl,rfl⟩)

theorem argumentNodes_uncommented {n : Node} (h : n.Throughout TakesNoComment) :
    n.uncommented.argumentNodes = n.argumentNodes.map uncommented := by
  rw [argumentNodes,argumentNodes,argumentList?_uncommented]
  cases hl : n.argumentList? with
  | none => rfl
  | some l =>
    obtain ⟨hmem,hkind⟩ := argumentList?_mem hl
    exact meaningful_uncommented ((h.inside l hmem).here.1 (.inr hkind))

theorem genericBase_uncommented (n : Node) :
    n.uncommented.children.find? isGenericBase =
      (n.children.find? isGenericBase).map uncommented := by
  rw [uncommented_children]
  refine find?_uncommented_of (fun c => ?_) fun c _ hc => ?_
  · simp only [isGenericBase,uncommented_named,uncommented_kind]
  · have hskips : Kind.Skips fun k => k = .typeIdentifier || k = .scopedTypeIdentifier := ⟨rfl,rfl⟩
    exact hskips.not_comment (Bool.and_eq_true_iff.mp hc).2

end Node

theorem option_uncommented_congr {α : Type} {read : Option Node → α} {t : Option Node}
    (h : ∀ n ∈ t, read (some n.uncommented) = read (some n)) :
    read (t.map Node.uncommented) = read t := by
  cases t with
  | none => rfl
  | some n => exact h n rfl

theorem brackets_uncommented (d : Option Node) : brackets (d.map Node.uncommented) = brackets d :=
  option_uncommented_congr fun n _ => by simp only [brackets,Node.uncommented_text]

theorem wildcardBounds_uncommented {cs : List Node}
    (h : ∀ c ∈ cs, typeText c.uncommented = typeText c) (word : Option String) :
    wildcardBounds word (((cs.filter Node.isKept).map Node.uncommented).map (Node.readWith textFrom)) =
      wildcardBounds word (cs.map (Node.readWith textFrom)) := by
  induction cs generalizing word with
  | nil => rfl
  | cons c cs ih =>
    have hrest := ih fun d hd => h d (List.mem_cons_of_mem _ hd)
    have hc : (c.uncommented.readWith textFrom).value = (c.readWith textFrom).value := h c (by simp)
    cases hk : c.kind.isComment with
    | false =>
      rw [List.filter_cons_of_pos (by simp [Node.isKept,hk])]
      simp only [List.map_cons,wildcardBounds,Node.readWith_node,Node.uncommented_kind,hc,hrest]
    | true =>
      rw [List.filter_cons_of_neg (by simp [Node.isKept,hk]),hrest,List.map_cons]
      rcases Kind.isComment_iff.mp hk with hk | hk <;> cases word <;>
        simp [wildcardBounds,Node.readWith_node,hk,Kind.isType]

theorem simpleName_uncommented (n : Node) : simpleName n.uncommented = simpleName n := by
  have hfilter := n.filter_named_uncommented (p := (· = .typeIdentifier)) ⟨rfl,rfl⟩
  simp only [simpleName,Node.uncommented_kind,Node.uncommented_text,hfilter,List.getLast?_map]
  split
  · cases (n.children.filter fun c => c.named && c.kind = .typeIdentifier).getLast? with
    | none => rfl
    | some c => simp only [Option.map_some,Node.uncommented_text]
  · rfl

theorem reshapes_uncommented {n : Node} (ha : n.SetsCommentsApart)
    (ht : n.Throughout Node.TakesNoComment) : n.Reshapes Node.uncommented where
  kind := n.uncommented_kind
  text _ := n.uncommented_text
  annotated hk := by
    rw [Node.meaningful,Node.filter_uncommented n Node.isMeaningful_uncommented,← Node.meaningful,
      List.getLast?_map,Node.getLast?_filter_of_last (ht.here.2 hk)]
  base _ := n.genericBase_uncommented
  arguments _ := Node.argumentNodes_uncommented ht
  segments hk := Node.meaningful_uncommented (ht.here.1 (.inl hk))
  element _ := Node.child?_uncommented ha .element
  dimensions _ := by rw [Node.child?_uncommented ha,brackets_uncommented]
  bounds _ hchild word := by rw [Node.uncommented_children,wildcardBounds_uncommented hchild]
  name _ := simpleName_uncommented n

theorem throughout_reshapes {n : Node} (ha : n.Throughout Node.SetsCommentsApart)
    (ht : n.Throughout Node.TakesNoComment) : n.Throughout (Node.Reshapes Node.uncommented) := by
  induction n using Node.size_induction with
  | step n ih =>
    exact .intro (reshapes_uncommented ha.here ht) fun c hc =>
      ih c (Node.sizeOf_lt_of_mem_children hc) (ha.inside c hc) (ht.inside c hc)

theorem typeText_uncommented {n : Node} (ha : n.Throughout Node.SetsCommentsApart)
    (ht : n.Throughout Node.TakesNoComment) : typeText n.uncommented = typeText n :=
  typeText_reshaped (throughout_reshapes ha ht)

theorem typeRef_uncommented {n : Node} (ha : n.Throughout Node.SetsCommentsApart)
    (ht : n.Throughout Node.TakesNoComment) : typeRef n.uncommented = typeRef n :=
  typeRef_reshaped (throughout_reshapes ha ht)

theorem elementRef_uncommented {n : Node} (ha : n.Throughout Node.SetsCommentsApart)
    (ht : n.Throughout Node.TakesNoComment) : elementRef n.uncommented = elementRef n := by
  induction n using Node.size_induction with
  | step n ih =>
    have hkind := Node.uncommented_kind n
    have hchild : ∀ c ∈ n.children, elementRef c.uncommented = elementRef c := fun c hc =>
      ih c (Node.sizeOf_lt_of_mem_children hc) (ha.inside c hc) (ht.inside c hc)
    by_cases h₁ : n.kind = .annotatedType
    · rw [elementRef_annotated (hkind.trans h₁),elementRef_annotated h₁]
      exact meaningOf_reshaped (reshapes_uncommented ha.here ht) h₁ hchild
    by_cases h₂ : n.kind = .arrayType
    · rw [elementRef_array (hkind.trans h₂),elementRef_array h₂,Node.child?_uncommented ha.here]
      cases he : n.child? .element with
      | none => rfl
      | some e => exact hchild e (Node.mem_children_of_role he)
    · rw [elementRef_plain h₁ h₂,elementRef_plain (by rwa [hkind]) (by rwa [hkind])]
      exact typeRef_uncommented ha ht

theorem listedTypes_uncommented (n : Node) :
    n.uncommented.listedTypes = n.listedTypes.map Node.uncommented := by
  induction n using Node.size_induction with
  | step n ih =>
    rw [Node.listedTypes_eq,Node.listedTypes_eq,Node.namedChildren_uncommented,List.flatMap_map,
      List.map_flatMap,Node.flatMap_isKept]
    · refine List.flatMap_congr fun c hc => ?_
      have hlt := Node.sizeOf_lt_of_mem_children (Node.mem_children_of_named hc)
      rw [Node.uncommented_kind]
      split
      · exact ih c hlt
      · split <;> rfl
    · intro c _ hc
      rcases Kind.isComment_iff.mp hc with hk | hk <;> simp [hk,Kind.isType]

theorem typesListed_uncommented {n : Node} (ha : n.Throughout Node.SetsCommentsApart)
    (ht : ∀ t ∈ n.listedTypes, t.Throughout Node.TakesNoComment) :
    typesListed n.uncommented = typesListed n := by
  rw [typesListed_eq,typesListed_eq,listedTypes_uncommented,map_reshaped fun t hmem =>
    typeRef_uncommented (ha.listedTypes t hmem) (ht t hmem)]

end ClassDiagram.Java
