import ClassDiagram.Proofs.Java.Dimensions

/-!
Arrays and their elements. The type of a field is gone through from the outside in, annotations and array types
alternating in whatever way; what is left in the end is no array, and the text of the type is the text of what is
left with a pair of brackets for each dimension passed. So a field and its variables have types that differ in
brackets only.
-/

namespace ClassDiagram.Java

def unannotatedFrom (n : Node) (children : List (Reading Node)) : Result Node :=
  if n.kind = .annotatedType then lastMeaning children else .ok n

def unannotated (n : Node) : Result Node := (n.readWith unannotatedFrom).value

section Annotations

variable {α : Type} {n b : Node}

theorem unannotated_annotated (h : n.kind = .annotatedType) :
    unannotated n = meaningOf unannotated n := by
  rw [unannotated,Node.readWith_value,unannotatedFrom,if_pos h,lastMeaning_readings]
  rfl

theorem unannotated_plain (h : n.kind ≠ .annotatedType) : unannotated n = .ok n := by
  rw [unannotated,Node.readWith_value,unannotatedFrom,if_neg h]

-- What passes annotations by reads a node as it reads what is below them.
theorem read_unannotated {read : Node → Result α}
    (h : ∀ n : Node, n.kind = .annotatedType → read n = meaningOf read n) (n : Node) :
    read n = unannotated n >>= read := by
  induction n using Node.size_induction with
  | step n ih =>
    by_cases ha : n.kind = .annotatedType
    · rw [h n ha,unannotated_annotated ha,meaningOf,meaningOf]
      cases hl : n.meaningful.getLast? with
      | none => rfl
      | some c =>
        exact ih c (Node.sizeOf_lt_of_mem_children
          (Node.mem_children_of_meaningful (List.mem_of_getLast? hl)))
    · rw [unannotated_plain ha]
      rfl

theorem read_of_unannotated {read : Node → Result α}
    (h : ∀ n : Node, n.kind = .annotatedType → read n = meaningOf read n) (hb : unannotated n = .ok b) :
    read n = read b := by
  rw [read_unannotated h,hb]
  rfl

theorem of_unannotated (h : unannotated n = .ok b) :
    b.kind ≠ .annotatedType ∧ sizeOf b ≤ sizeOf n := by
  induction n using Node.size_induction with
  | step n ih =>
    by_cases ha : n.kind = .annotatedType
    · rw [unannotated_annotated ha,meaningOf] at h
      split at h
      · cases h
      · rename_i c hl
        have hlt : sizeOf c < sizeOf n := Node.sizeOf_lt_of_mem_children
          (Node.mem_children_of_meaningful (List.mem_of_getLast? hl))
        obtain ⟨hkind,hle⟩ := ih c hlt h
        exact ⟨hkind,by omega⟩
    · rw [unannotated_plain ha] at h
      cases h
      exact ⟨ha,Nat.le_refl _⟩

end Annotations

inductive ArrayOf : Option Node → Nat → Option Node → Prop
  | absent : ArrayOf none 0 none
  | core {n b : Node} : unannotated n = .ok b → b.kind ≠ .arrayType → ArrayOf (some n) 0 (some n)
  | array {n b : Node} {rank : Nat} {e : Option Node} : unannotated n = .ok b → b.kind = .arrayType →
      ArrayOf (b.child? .element) rank e →
      ArrayOf (some n) (rank + rankOf (b.child? .dimensions)) e

namespace ArrayOf

variable {t e : Option Node} {rank : Nat}

theorem core_not_array (h : ArrayOf t rank e) :
    ∀ m ∈ e, ∃ b, unannotated m = .ok b ∧ b.kind ≠ .arrayType := by
  induction h with
  | absent => simp
  | @core n b hn hb =>
    rintro m ⟨⟩
    exact ⟨b,hn,hb⟩
  | array _ _ _ ih => exact ih

theorem typeText?_eq (h : ArrayOf t rank e) :
    typeText? t = (typeText? e).map (· ++ pairsOfBrackets rank) := by
  induction h with
  | absent => rfl
  | @core n b _ _ =>
    rw [typeText?]
    cases typeText n with
    | error e => rfl
    | ok text => exact congrArg Except.ok String.append_empty.symm
  | @array n b rank e hn hb _ ih =>
    rw [typeText?,read_of_unannotated (fun _ => typeText_annotated) hn,typeText_array hb,ih,brackets_eq,
      pairsOfBrackets_add]
    cases typeText? e with
    | error e => rfl
    | ok text => exact congrArg Except.ok (String.append_assoc ..)

theorem elementRef?_eq (h : ArrayOf t rank e) : elementRef? t = typeRef? e := by
  induction h with
  | absent => rfl
  | @core n b hn hb =>
    calc elementRef n
        = elementRef b := read_of_unannotated (fun _ => elementRef_annotated) hn
      _ = typeRef b := elementRef_plain (of_unannotated hn).1 hb
      _ = typeRef n := (read_of_unannotated (fun _ => typeRef_annotated) hn).symm
  | @array n b rank e hn hb _ ih =>
    calc elementRef n
        = elementRef b := read_of_unannotated (fun _ => elementRef_annotated) hn
      _ = elementRef? (b.child? .element) := elementRef_array hb
      _ = typeRef? e := ih

theorem exists_of_typeText? {text : String} (h : typeText? t = .ok text) :
    ∃ rank e, ArrayOf t rank e := by
  cases t with
  | none => exact ⟨0,none,.absent⟩
  | some n =>
    induction n using Node.size_induction generalizing text with
    | step n ih =>
      rw [typeText?,read_unannotated fun _ => typeText_annotated,bind_eq_ok] at h
      obtain ⟨b,hn,hb⟩ := h
      by_cases harray : b.kind = .arrayType
      · rw [typeText_array harray,bind_eq_ok] at hb
        obtain ⟨inner,hinner,_⟩ := hb
        cases he : b.child? .element with
        | none => exact ⟨_,none,.array hn harray (by rw [he]; exact .absent)⟩
        | some c =>
          have hlt : sizeOf c < sizeOf n := Nat.lt_of_lt_of_le
            (Node.sizeOf_lt_of_mem_children (Node.mem_children_of_role he)) (of_unannotated hn).2
          obtain ⟨rank,e,harr⟩ := ih c hlt (he ▸ hinner)
          exact ⟨_,e,.array hn harray (he ▸ harr)⟩
      · exact ⟨0,some n,.core hn harray⟩

end ArrayOf

theorem typeText?_of_typeRef? {t : Option Node} {r : TypeRef} (h : typeRef? t = .ok r) :
    typeText? t = .ok r.text := by
  cases t with
  | none =>
    cases h
    rfl
  | some n => exact typeText_of_typeRef h

theorem variables_extend_the_element (n : Node) (f : FieldDecl) (h : fieldOf n = .ok f) :
    ∃ rank e, ArrayOf (n.child? .type) rank e ∧ typeRef? e = .ok f.type ∧
      (∀ m ∈ e, ∃ b, unannotated m = .ok b ∧ b.kind ≠ .arrayType) ∧
      typeText? (n.child? .type) = .ok (f.type.text ++ pairsOfBrackets rank) ∧
      f.declarators = (n.childrenIn .declarator).map fun d =>
        ⟨nameOf d,f.type.text ++ pairsOfBrackets (rank + rankOf (d.child? .dimensions))⟩ := by
  rw [fieldOf_eq] at h
  simp only [bind_eq_ok,pure_eq_ok] at h
  obtain ⟨text,htext,type,htype,rfl⟩ := h
  obtain ⟨rank,e,harray⟩ := ArrayOf.exists_of_typeText? htext
  rw [harray.elementRef?_eq] at htype
  have hwhole : typeText? (n.child? .type) = .ok (type.text ++ pairsOfBrackets rank) := by
    rw [harray.typeText?_eq,typeText?_of_typeRef? htype]
    rfl
  obtain rfl : type.text ++ pairsOfBrackets rank = text := Except.ok.inj (hwhole.symm.trans htext)
  refine ⟨rank,e,harray,htype,harray.core_not_array,hwhole,?_⟩
  simp only [variablesOf,brackets_eq,pairsOfBrackets_add,String.append_assoc]

section Seats

def checkedNode (type : Node) : Node :=
  { kind := .annotatedType,children := [{ kind := .markerAnnot,text := "@Checked" },type] }

-- Arrays and annotations alternate above the element, and one variable has dimensions of its own.
def seatsNode : Node :=
  { kind := .fieldDecl
    children := [(checkedNode (raisedNode (checkedNode (raisedNode (checkedNode
          { kind := .typeIdentifier,text := "Seat" }) 1)) 1)).inRole (some .type),
      variableNode "rows" [],variableNode "halls" [dimensionsOf 2]] }

end Seats

theorem variables_extend_the_element_seats :
    ∃ f, fieldOf seatsNode = .ok f ∧
      f.type.text = "Seat" ∧ f.declarators.map Declarator.type = ["Seat[][]","Seat[][][][]"] ∧
      ∃ rank e, ArrayOf (seatsNode.child? .type) rank e ∧ typeRef? e = .ok f.type ∧
        ∀ m ∈ e, ∃ b, unannotated m = .ok b ∧ b.kind ≠ .arrayType := by
  obtain ⟨rank,e,harray,htype,hcore,_⟩ := variables_extend_the_element seatsNode _ rfl
  exact ⟨_,rfl,rfl,rfl,rank,e,harray,htype,hcore⟩

end ClassDiagram.Java
