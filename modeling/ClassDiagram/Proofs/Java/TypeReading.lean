import ClassDiagram.Proofs.Java.Body

/-!
Types read node by node. What a type node stands for is said by one equation for each kind of node, in
terms of the type nodes below it; a list of supertypes is read from the types listed in it, at whatever
depth they stand.
-/

namespace ClassDiagram.Java

section

variable {α β γ : Type}

theorem allOk_append (xs ys : List (Result α)) :
    allOk (xs ++ ys) = (do
      let as ← allOk xs
      let bs ← allOk ys
      pure (as ++ bs)) := by
  induction xs with
  | nil =>
    cases h : allOk ys with
    | error e => simp [allOk,bind,Except.bind,h]
    | ok bs => simp [allOk,bind,Except.bind,pure,Except.pure,h]
  | cons x xs ih =>
    rw [List.cons_append,allOk,allOk,ih]
    cases x with
    | error e => rfl
    | ok a =>
      cases allOk xs with
      | error e => rfl
      | ok as => cases allOk ys <;> rfl

theorem allOk_flatMap (f : α → List (Result β)) (xs : List α) :
    allOk (xs.flatMap f) = (allOk (xs.map fun x => allOk (f x))).map List.flatten := by
  induction xs with
  | nil => rfl
  | cons x xs ih =>
    rw [List.flatMap_cons,allOk_append,ih,List.map_cons,allOk]
    cases allOk (f x) with
    | error e => rfl
    | ok as => cases allOk (xs.map fun x => allOk (f x)) <;> rfl

end

namespace Node

@[elab_as_elim]
theorem size_induction {P : Node → Prop} (step : ∀ n, (∀ m, sizeOf m < sizeOf n → P m) → P n)
    (n : Node) : P n := by
  induction hn : sizeOf n using Nat.strongRecOn generalizing n with
  | ind size ih =>
    subst hn
    exact step n fun m hm => ih _ hm m rfl

def meaningful (n : Node) : List Node := n.children.filter isMeaningful

def argumentList? (n : Node) : Option Node :=
  (n.children.filter fun c => c.named && c.kind = .typeArguments).getLast?

def argumentNodes (n : Node) : List Node := (n.argumentList?.map meaningful).getD []

theorem mem_children_of_meaningful {n c : Node} (h : c ∈ n.meaningful) : c ∈ n.children :=
  (List.mem_filter.mp h).1

theorem argumentList?_mem {n c : Node} (h : n.argumentList? = some c) :
    c ∈ n.children ∧ c.kind = .typeArguments := by
  obtain ⟨hc,hkind⟩ := List.mem_filter.mp (List.mem_of_getLast? h)
  simp only [Bool.and_eq_true,decide_eq_true_eq] at hkind
  exact ⟨hc,hkind.2⟩

theorem sizeOf_lt_of_mem_argumentNodes {n c : Node} (h : c ∈ n.argumentNodes) :
    sizeOf c < sizeOf n := by
  rw [argumentNodes] at h
  cases hl : n.argumentList? with
  | none => simp [hl] at h
  | some l =>
    have hc : c ∈ l.meaningful := by simpa [hl] using h
    exact Nat.lt_trans (sizeOf_lt_of_mem_children (mem_children_of_meaningful hc))
      (sizeOf_lt_of_mem_children (argumentList?_mem hl).1)

end Node

section Readings

variable {α : Type} (f : Node → List (Reading α) → Result α) (n : Node)

def meaningOf (read : Node → Result α) (n : Node) : Result α :=
  match n.meaningful.getLast? with
  | none => .error .missingChild
  | some c => read c

theorem lastMeaning_readings :
    lastMeaning (n.children.map (Node.readWith f)) =
      meaningOf (fun c => (c.readWith f).value) n := by
  rw [lastMeaning,meaningOf,List.filter_map,List.getLast?_map]
  simp only [Function.comp_def,Node.readWith_node]
  rw [← Node.meaningful]
  cases n.meaningful.getLast? <;> rfl

theorem argumentValues_readings :
    argumentValues (n.children.map (Node.readWith f)) =
      n.argumentNodes.map fun c => (c.readWith f).value := by
  rw [argumentValues,List.filter_map,List.getLast?_map,Node.argumentNodes]
  simp only [Function.comp_def,Node.readWith_node]
  rw [← Node.argumentList?]
  cases n.argumentList? with
  | none => rfl
  | some l =>
    simp only [Option.map_some,Option.getD_some,Node.readWith_below,List.filter_map,List.map_map]
    rfl

theorem find?_readings (p : Node → Bool) :
    (n.children.map (Node.readWith f)).find? (fun c => p c.node) =
      (n.children.find? p).map (Node.readWith f) := by
  rw [List.find?_map]
  simp only [Function.comp_def,Node.readWith_node]

end Readings

def Kind.isComposite : Kind → Bool
  | .annotatedType | .genericType | .scopedTypeIdentifier | .arrayType | .wildcard => true
  | _ => false

section TypeText

variable {n : Node}

theorem typeText_annotated (h : n.kind = .annotatedType) : typeText n = meaningOf typeText n := by
  rw [typeText,Node.readWith_value,textFrom]
  simp only [h,lastMeaning_readings]
  rfl

theorem typeText_generic (h : n.kind = .genericType) :
    typeText n = (do
      let base ← match n.children.find? isGenericBase with
        | none => pure ""
        | some c => typeText c
      let arguments ← allOk (n.argumentNodes.map typeText)
      pure (base ++ TypeRef.angled arguments)) := by
  rw [typeText,Node.readWith_value,textFrom]
  simp only [h,find?_readings,argumentValues_readings]
  cases n.children.find? isGenericBase <;> rfl

theorem typeText_scoped (h : n.kind = .scopedTypeIdentifier) :
    typeText n = (do
      let segments ← allOk (n.meaningful.map typeText)
      pure (".".intercalate segments)) := by
  rw [typeText,Node.readWith_value,textFrom]
  simp only [h,List.filter_map,List.map_map,Function.comp_def,Node.readWith_node]
  rfl

theorem typeText_array (h : n.kind = .arrayType) :
    typeText n = (do
      let element ← typeText? (n.child? .element)
      pure (element ++ brackets (n.child? .dimensions))) := by
  rw [typeText,Node.readWith_value,textFrom]
  simp only [h]
  rw [find?_readings _ _ fun c => decide (c.role = some .element),← Node.child?]
  cases n.child? .element <;> rfl

theorem typeText_wildcard (h : n.kind = .wildcard) :
    typeText n = (do
      let bounds ← wildcardBounds none (n.children.map (Node.readWith textFrom))
      pure ("?" ++ bounds)) := by
  rw [typeText,Node.readWith_value,textFrom]
  simp only [h]

theorem typeText_plain (h : n.kind.isComposite = false) :
    typeText n = .ok (Text.singleSpaced n.text) := by
  rw [typeText,Node.readWith_value,textFrom]
  cases hk : n.kind <;> simp_all [Kind.isComposite]

end TypeText

theorem simpleName_of_last {n last : Node} {scope : List Node} (hk : n.kind = .scopedTypeIdentifier)
    (hm : n.meaningful = scope ++ [last]) (hl : last.kind = .typeIdentifier) :
    simpleName n = .ok last.text := by
  have hfilter : n.children.filter (fun c => c.named && c.kind = .typeIdentifier) =
      n.meaningful.filter fun c => c.kind = .typeIdentifier := by
    rw [Node.meaningful,List.filter_filter]
    refine List.filter_congr fun c _ => ?_
    by_cases hc : c.kind = .typeIdentifier
    · simp [isMeaningful,hc,Kind.isAnnot]
    · simp [hc]
  rw [simpleName,if_pos hk,hfilter,hm,List.filter_append]
  simp [hl]

section TypeRef

variable {n : Node}

theorem typeRef_annotated (h : n.kind = .annotatedType) : typeRef n = meaningOf typeRef n := by
  rw [typeRef,Node.readWith_value,refFrom]
  simp only [h,lastMeaning_readings]
  rfl

theorem typeRef_named (h : n.kind = .typeIdentifier ∨ n.kind = .scopedTypeIdentifier) :
    typeRef n = (do
      let text ← typeText n
      let base ← simpleName n
      pure { text,baseName := some base }) := by
  rw [typeRef,Node.readWith_value,refFrom]
  rcases h with h | h <;> simp only [h]

theorem typeRef_generic (h : n.kind = .genericType) :
    typeRef n = (do
      let text ← typeText n
      let base ← match n.children.find? isGenericBase with
        | none => pure none
        | some c => (simpleName c).map some
      let arguments ← allOk (n.argumentNodes.map typeRef)
      pure { text,baseName := base,arguments := TypeRef.argumentList arguments }) := by
  rw [typeRef,Node.readWith_value,refFrom]
  simp only [h,argumentValues_readings]
  rfl

theorem typeRef_unnamed (h : n.kind ≠ .annotatedType) (hi : n.kind ≠ .typeIdentifier)
    (hs : n.kind ≠ .scopedTypeIdentifier) (hg : n.kind ≠ .genericType) :
    typeRef n = (typeText n).map TypeRef.ofText := by
  rw [typeRef,Node.readWith_value,refFrom]
  cases hk : n.kind <;> simp_all

end TypeRef

section ElementNode

variable {n : Node}

theorem elementNode_annotated (h : n.kind = .annotatedType) :
    elementNode n = meaningOf elementNode n := by
  rw [elementNode,Node.readWith_value,elementFrom]
  simp only [h,lastMeaning_readings]
  rfl

theorem elementNode_array (h : n.kind = .arrayType) :
    elementNode n = match n.child? .element with
      | none => .ok none
      | some c => elementNode c := by
  rw [elementNode,Node.readWith_value,elementFrom]
  simp only [h]
  rw [find?_readings _ _ fun c => decide (c.role = some .element),← Node.child?]
  cases n.child? .element <;> rfl

theorem elementNode_plain (h : n.kind ≠ .annotatedType) (ha : n.kind ≠ .arrayType) :
    elementNode n = .ok (some n) := by
  rw [elementNode,Node.readWith_value,elementFrom]
  cases hk : n.kind <;> simp_all

def elementRef (n : Node) : Result TypeRef := elementNode n >>= typeRef?

theorem elementRef_annotated (h : n.kind = .annotatedType) : elementRef n = meaningOf elementRef n := by
  rw [elementRef,elementNode_annotated h,meaningOf,meaningOf]
  cases n.meaningful.getLast? <;> rfl

theorem elementRef_array (h : n.kind = .arrayType) : elementRef n = elementRef? (n.child? .element) := by
  rw [elementRef,elementNode_array h]
  cases n.child? .element <;> rfl

theorem elementRef_plain (h : n.kind ≠ .annotatedType) (ha : n.kind ≠ .arrayType) :
    elementRef n = typeRef n := by
  rw [elementRef,elementNode_plain h ha]
  rfl

end ElementNode

def Node.listedTypes (n : Node) : List Node :=
  n.namedChildren.attach.flatMap fun ⟨c, _⟩ =>
    if c.kind = .typeList then c.listedTypes else if c.kind.isType then [c] else []
termination_by sizeOf n
decreasing_by
  exact Node.sizeOf_lt_of_mem_children (Node.mem_children_of_named ‹c ∈ n.namedChildren›)

theorem Node.listedTypes_eq (n : Node) :
    n.listedTypes = n.namedChildren.flatMap fun c =>
      if c.kind = .typeList then c.listedTypes else if c.kind.isType then [c] else [] := by
  rw [Node.listedTypes]
  refine (List.flatMap_subtype fun c _ => ?_).trans (by rw [List.unattach_attach])
  rfl

theorem typesListed_parts (n : Node) :
    typesListed n = (allOk (n.namedChildren.map fun c =>
      if c.kind = .typeList then typesListed c
      else if c.kind.isType then (typeRef c).map fun t => [t]
      else .ok [])).map List.flatten := by
  rw [typesListed,Node.readWith_value,typesFrom,List.filter_map,List.map_map]
  simp only [Function.comp_def,Node.readWith_node]
  rfl

theorem typesListed_eq (n : Node) : typesListed n = allOk (n.listedTypes.map typeRef) := by
  induction n using Node.size_induction with
  | step n ih =>
    rw [typesListed_parts,Node.listedTypes_eq,List.map_flatMap,allOk_flatMap]
    refine congrArg (fun rs => (allOk rs).map List.flatten) (List.map_congr_left fun c hc => ?_)
    have hlt := Node.sizeOf_lt_of_mem_children (Node.mem_children_of_named hc)
    split
    · exact ih c hlt
    · split
      · rw [List.map_singleton,allOk,allOk]
        cases typeRef c <;> rfl
      · rfl

end ClassDiagram.Java
