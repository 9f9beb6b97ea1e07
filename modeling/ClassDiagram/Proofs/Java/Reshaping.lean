import ClassDiagram.Proofs.Java.TypeReading

/-!
Types read from a changed tree. A change of trees can keep the kind of every node and what is read of its
children: the changed children stand where the others stood, and the brackets of an array are as many as
before. A type is then read as before.
-/

namespace ClassDiagram.Java

namespace Node

inductive Throughout (P : Node → Prop) : Node → Prop
  | intro {n : Node} : P n → (∀ c ∈ n.children, Throughout P c) → Throughout P n

namespace Throughout

variable {P : Node → Prop} {n : Node}

theorem here (h : n.Throughout P) : P n := by
  cases h with
  | intro hn _ => exact hn

theorem inside (h : n.Throughout P) : ∀ c ∈ n.children, c.Throughout P := by
  cases h with
  | intro _ hc => exact hc

theorem child (h : n.Throughout P) {role : Role} {c : Node} (hc : n.child? role = some c) :
    c.Throughout P :=
  h.inside c (mem_children_of_role hc)

theorem arguments (h : n.Throughout P) : ∀ c ∈ n.argumentNodes, c.Throughout P := by
  intro c hc
  rw [argumentNodes] at hc
  cases hl : n.argumentList? with
  | none => simp [hl] at hc
  | some l =>
    have hmem : c ∈ l.meaningful := by simpa [hl] using hc
    exact (h.inside l (argumentList?_mem hl).1).inside c (mem_children_of_meaningful hmem)

theorem listedTypes (h : n.Throughout P) : ∀ t ∈ n.listedTypes, t.Throughout P := by
  induction n using Node.size_induction with
  | step n ih =>
    intro t ht
    rw [listedTypes_eq] at ht
    obtain ⟨c,hc,ht⟩ := List.mem_flatMap.mp ht
    have hmem := mem_children_of_named hc
    split at ht
    · exact ih c (sizeOf_lt_of_mem_children hmem) (h.inside c hmem) t ht
    · split at ht
      · rw [List.mem_singleton.mp ht]
        exact h.inside c hmem
      · cases ht

end Throughout

section

variable {P : Node → Prop}

theorem throughout_mk {kind : Kind} {named : Bool} {role : Option Role} {text : String}
    {children : List Node} :
    Throughout P ⟨kind,named,role,text,children⟩ ↔
      P ⟨kind,named,role,text,children⟩ ∧ ∀ c ∈ children, c.Throughout P :=
  ⟨fun h => ⟨h.here,h.inside⟩,fun h => .intro h.1 h.2⟩

variable [DecidablePred P]

mutual

def decideThroughout : (n : Node) → Decidable (n.Throughout P)
  | ⟨_, _, _, _, children⟩ =>
      have := decideThroughoutAll children
      decidable_of_iff' _ throughout_mk

def decideThroughoutAll : (cs : List Node) → Decidable (∀ c ∈ cs, c.Throughout P)
  | [] => .isTrue (by simp)
  | c :: cs =>
      have := decideThroughout c
      have := decideThroughoutAll cs
      decidable_of_iff' _ List.forall_mem_cons

end

instance : DecidablePred (Throughout P) := decideThroughout

end

structure Reshapes (g : Node → Node) (n : Node) : Prop where
  kind : (g n).kind = n.kind
  text : n.kind.isComposite = false → (g n).text = n.text
  annotated : n.kind = .annotatedType → (g n).meaningful.getLast? = n.meaningful.getLast?.map g
  base : n.kind = .genericType →
    (g n).children.find? isGenericBase = (n.children.find? isGenericBase).map g
  arguments : n.kind = .genericType → (g n).argumentNodes = n.argumentNodes.map g
  segments : n.kind = .scopedTypeIdentifier → (g n).meaningful = n.meaningful.map g
  element : n.kind = .arrayType → (g n).child? .element = (n.child? .element).map g
  dimensions : n.kind = .arrayType →
    brackets ((g n).child? .dimensions) = brackets (n.child? .dimensions)
  bounds : n.kind = .wildcard → (∀ c ∈ n.children, typeText (g c) = typeText c) → ∀ word,
    wildcardBounds word ((g n).children.map (readWith textFrom)) =
      wildcardBounds word (n.children.map (readWith textFrom))
  name : n.kind = .typeIdentifier ∨ n.kind = .scopedTypeIdentifier → simpleName (g n) = simpleName n

end Node

section Reshaped

variable {g : Node → Node} {n : Node}

theorem map_reshaped {α : Type} {read : Node → α} {cs : List Node}
    (h : ∀ c ∈ cs, read (g c) = read c) : (cs.map g).map read = cs.map read := by
  rw [List.map_map]
  exact List.map_congr_left h

theorem meaningOf_reshaped {α : Type} (h : n.Reshapes g) (hk : n.kind = .annotatedType)
    {read : Node → Result α} (hread : ∀ c ∈ n.children, read (g c) = read c) :
    meaningOf read (g n) = meaningOf read n := by
  rw [meaningOf,meaningOf,h.annotated hk]
  cases hl : n.meaningful.getLast? with
  | none => rfl
  | some c => exact hread c (Node.mem_children_of_meaningful (List.mem_of_getLast? hl))

theorem typeText_reshaped (h : n.Throughout (Node.Reshapes g)) : typeText (g n) = typeText n := by
  induction n using Node.size_induction with
  | step n ih =>
    have hchild : ∀ c ∈ n.children, typeText (g c) = typeText c := fun c hc =>
      ih c (Node.sizeOf_lt_of_mem_children hc) (h.inside c hc)
    have hkind := h.here.kind
    -- Only these kinds read their children; the text of any other node is its own and stays.
    by_cases h₁ : n.kind = .annotatedType
    · rw [typeText_annotated (hkind.trans h₁),typeText_annotated h₁]
      exact meaningOf_reshaped h.here h₁ hchild
    by_cases h₂ : n.kind = .genericType
    · have harguments : ∀ c ∈ n.argumentNodes, typeText (g c) = typeText c := fun c hc =>
        ih c (Node.sizeOf_lt_of_mem_argumentNodes hc) (h.arguments c hc)
      rw [typeText_generic (hkind.trans h₂),typeText_generic h₂,h.here.arguments h₂,
        map_reshaped harguments,h.here.base h₂]
      cases hb : n.children.find? isGenericBase with
      | none => rfl
      | some b => simp only [Option.map_some,hchild b (List.mem_of_find?_eq_some hb)]
    by_cases h₃ : n.kind = .scopedTypeIdentifier
    · rw [typeText_scoped (hkind.trans h₃),typeText_scoped h₃,h.here.segments h₃,
        map_reshaped fun c hc => hchild c (Node.mem_children_of_meaningful hc)]
    by_cases h₄ : n.kind = .arrayType
    · rw [typeText_array (hkind.trans h₄),typeText_array h₄,h.here.dimensions h₄,h.here.element h₄]
      cases he : n.child? .element with
      | none => rfl
      | some e => simp only [Option.map_some,typeText?,hchild e (Node.mem_children_of_role he)]
    by_cases h₅ : n.kind = .wildcard
    · rw [typeText_wildcard (hkind.trans h₅),typeText_wildcard h₅,h.here.bounds h₅ hchild]
    · have hplain : n.kind.isComposite = false := by
        cases hk : n.kind <;> simp_all [Kind.isComposite]
      rw [typeText_plain (by rw [hkind,hplain]),typeText_plain hplain,h.here.text hplain]

theorem typeRef_reshaped (h : n.Throughout (Node.Reshapes g)) : typeRef (g n) = typeRef n := by
  induction n using Node.size_induction with
  | step n ih =>
    have hkind := h.here.kind
    have htext := typeText_reshaped h
    by_cases h₁ : n.kind = .annotatedType
    · rw [typeRef_annotated (hkind.trans h₁),typeRef_annotated h₁]
      exact meaningOf_reshaped h.here h₁ fun c hc =>
        ih c (Node.sizeOf_lt_of_mem_children hc) (h.inside c hc)
    by_cases h₂ : n.kind = .typeIdentifier ∨ n.kind = .scopedTypeIdentifier
    · rw [typeRef_named (by rwa [hkind]),typeRef_named h₂,htext,h.here.name h₂]
    by_cases h₃ : n.kind = .genericType
    · have harguments : ∀ c ∈ n.argumentNodes, typeRef (g c) = typeRef c := fun c hc =>
        ih c (Node.sizeOf_lt_of_mem_argumentNodes hc) (h.arguments c hc)
      rw [typeRef_generic (hkind.trans h₃),typeRef_generic h₃,htext,h.here.arguments h₃,
        map_reshaped harguments,h.here.base h₃]
      cases hb : n.children.find? isGenericBase with
      | none => rfl
      | some b =>
        have hfound : isGenericBase b = true := List.find?_some hb
        have hbase : b.kind = .typeIdentifier ∨ b.kind = .scopedTypeIdentifier := by
          simpa using (Bool.and_eq_true_iff.mp hfound).2
        have hname := (h.inside b (List.mem_of_find?_eq_some hb)).here.name hbase
        simp only [Option.map_some,hname]
    · rw [not_or] at h₂
      have hunnamed := typeRef_unnamed h₁ h₂.1 h₂.2 h₃
      rw [hunnamed,← htext]
      simp only [← hkind] at h₁ h₂ h₃
      exact typeRef_unnamed h₁ h₂.1 h₂.2 h₃

end Reshaped

end ClassDiagram.Java
