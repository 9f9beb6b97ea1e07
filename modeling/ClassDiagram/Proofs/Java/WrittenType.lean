import ClassDiagram.Proofs.Java.JavaType
import ClassDiagram.Proofs.Java.TypeReading
import ClassDiagram.Proofs.Text.Cutting

/-!
Types as they are written. A type can be written in many trees: annotations stand before it, before a
wildcard or after the dot of a qualified name, and the text of a node with others inside may be laid out in
any way. Each of these trees is read as the one reference that the type stands for.
-/

namespace ClassDiagram.Java

def mark (word : String) : Node := { kind := Kind.ofName word,named := false,text := word }

def Bound.mark : Bound → Node
  | .upper => Java.mark "extends"
  | .lower => { kind := .superWord,text := "super" }

section Nodes

variable (role : Option Role) (text : String)

def identifierNode (name : Identifier) : Node := { kind := .typeIdentifier,role,text := name.text }

def scopedNode (left : Node) (annots : List Node) (last : Node) : Node :=
  { kind := .scopedTypeIdentifier,role,text,children := left :: mark "." :: annots ++ [last] }

def argumentsNode (ns : List Node) : Node :=
  { kind := .typeArguments,role,text,children := mark "<" :: ns ++ [mark ">"] }

def genericNode (base arguments : Node) : Node :=
  { kind := .genericType,role,text,children := [base,arguments] }

def wildcardNode (annots bounds : List Node) : Node :=
  { kind := .wildcard,role,text,children := annots ++ mark "?" :: bounds }

def annotatedNode (annots : List Node) (n : Node) : Node :=
  { kind := .annotatedType,role,text,children := annots ++ [n] }

def dimensionsNode (rank : Nat) : Node :=
  { kind := .dimensions,role := some .dimensions,text
    children := (List.replicate rank [mark "[",mark "]"]).flatten }

def arrayNode (element dims : Node) : Node :=
  { kind := .arrayType,role,text,children := [element,dims] }

end Nodes

def Annotations (ns : List Node) : Prop := ∀ n ∈ ns, n.named = true ∧ n.kind.isAnnot = true

-- The text of dimensions is all that is read of them, and blanks may stand anywhere in it.
def LaysOut (text : String) (rank : Nat) : Prop :=
  text.toList.filter (fun c => !Text.isBlank c) = (pairsOfBrackets rank).toList

instance (text : String) (rank : Nat) : Decidable (LaysOut text rank) :=
  inferInstanceAs (Decidable (_ = _))

mutual

inductive NameNode : Node → ClassType → Prop
  | identifier (role : Option Role) (name : Identifier) :
      NameNode (identifierNode role name) (.simple name [])
  | scoped (role lastRole : Option Role) (text : String) (name : Identifier) {left : Node}
      {outer : ClassType} {annots : List Node} : ClassNode left outer → Annotations annots →
      NameNode (scopedNode role text left annots (identifierNode lastRole name)) (.inner outer name [])

inductive ClassNode : Node → ClassType → Prop
  | bare {n : Node} {c : ClassType} : NameNode n c → ClassNode n c
  | generic (role listRole : Option Role) (text listText : String) {base : Node} {c : ClassType}
      {ns : List Node} {arguments : List TypeArgument} : NameNode base c → ArgumentNodes ns arguments →
      ClassNode (genericNode role text base (argumentsNode listRole listText ns))
        (c.withArguments arguments)

inductive ArgumentNodes : List Node → List TypeArgument → Prop
  | one {n : Node} {a : TypeArgument} : ArgumentNode n a → ArgumentNodes [n] [a]
  | more {n : Node} {a : TypeArgument} {ns : List Node} {rest : List TypeArgument} :
      ArgumentNode n a → ArgumentNodes ns rest → ArgumentNodes (n :: mark "," :: ns) (a :: rest)

inductive ArgumentNode : Node → TypeArgument → Prop
  | type {n : Node} {t : JavaType} : TypeNode n t → ArgumentNode n (.type t)
  | unbounded (role : Option Role) (text : String) {annots : List Node} : Annotations annots →
      ArgumentNode (wildcardNode role text annots []) .unbounded
  | bounded (role : Option Role) (text : String) (bound : Bound) {annots : List Node} {n : Node}
      {t : JavaType} : Annotations annots → TypeNode n t →
      ArgumentNode (wildcardNode role text annots [bound.mark,n]) (.bounded bound t)

inductive TypeNode : Node → JavaType → Prop
  | plain {n : Node} {t : JavaType} : PlainNode n t → TypeNode n t
  | annotated (role : Option Role) (text : String) {annots : List Node} {n : Node} {t : JavaType} :
      annots ≠ [] → Annotations annots → PlainNode n t → TypeNode (annotatedNode role text annots n) t

inductive PlainNode : Node → JavaType → Prop
  | primitive (role : Option Role) (children : List Node) (p : Primitive) :
      PlainNode { kind := p.kind,role,text := p.word,children } (.primitive p 0)
  | named {n : Node} {c : ClassType} : ClassNode n c → PlainNode n (.named c 0)
  | array (role : Option Role) (text : String) {element : Node} {t : JavaType} {dims : String}
      {rank : Nat} : element.role = some .element → PlainNode element t → 0 < rank →
      LaysOut dims rank →
      PlainNode (arrayNode role text element (dimensionsNode dims rank)) (t.arrayOf rank)

end

structure Reads (n : Node) (t : TypeRef) : Prop where
  named : n.named = true
  isType : n.kind.isType = true
  text : typeText n = .ok t.text
  ref : typeRef n = .ok t

-- What is known of a node that type arguments may follow.
structure ReadsName (n : Node) (c : ClassType) : Prop where
  named : n.named = true
  kind : n.kind = .typeIdentifier ∨ n.kind = .scopedTypeIdentifier
  bare : c.arguments = []
  text : typeText n = .ok c.print
  name : simpleName n = .ok c.name.text

theorem Reads.meaningful {n : Node} {t : TypeRef} (h : Reads n t) : isMeaningful n = true := by
  have htype := h.isType
  rw [isMeaningful,h.named]
  cases hk : n.kind <;> simp_all [Kind.isType,Kind.isAnnot]

theorem ReadsName.reads {n : Node} {c : ClassType} (h : ReadsName n c) : Reads n c.reference := by
  have href : c.reference = { text := c.print,baseName := some c.name.text } := by
    rw [c.reference_eq,h.bare]
    rfl
  refine ⟨h.named,?_,?_,?_⟩
  · rcases h.kind with hk | hk <;> rw [hk] <;> rfl
  · rw [href]
    exact h.text
  · rw [typeRef_named h.kind,h.text,h.name,href]
    rfl

def Kind.isNameless : Kind → Bool
  | .arrayType | .wildcard | .integralType | .floatingPointType | .booleanType | .voidType => true
  | _ => false

theorem reads_ofText {n : Node} {printed : String} (hnamed : n.named = true)
    (hkind : n.kind.isNameless = true) (htext : typeText n = .ok printed) :
    Reads n (.ofText printed) := by
  have hne : ∀ k : Kind, k.isNameless = false → n.kind ≠ k := by
    rintro _ hk rfl
    rw [hk] at hkind
    cases hkind
  refine ⟨hnamed,?_,htext,?_⟩
  · cases hk : n.kind <;> simp_all [Kind.isNameless,Kind.isType]
  · rw [typeRef_unnamed (hne _ rfl) (hne _ rfl) (hne _ rfl) (hne _ rfl),htext]
    rfl

theorem Identifier.singleSpaced (name : Identifier) : Text.singleSpaced name.text = name.text := by
  refine Text.singleSpaced_of_solid (fun hempty => ?_) fun c hc => (name.chars c hc).2
  exact name.text_ne_nil (by rw [hempty]; rfl)

theorem Primitive.singleSpaced (p : Primitive) : Text.singleSpaced p.word = p.word := by
  cases p <;> decide

theorem count_pairsOfBrackets (rank : Nat) : (pairsOfBrackets rank).toList.count '[' = rank := by
  induction rank with
  | zero => rfl
  | succ rank ih =>
    rw [pairsOfBrackets_add,String.toList_append,List.count_append,ih]
    rfl

theorem brackets_dimensionsNode {text : String} {rank : Nat} (h : LaysOut text rank) :
    brackets (some (dimensionsNode text rank)) = pairsOfBrackets rank := by
  have hcount : text.toList.count '[' = rank := by
    rw [← List.count_filter (p := fun c => !Text.isBlank c) (by decide),h,count_pairsOfBrackets]
  rw [brackets,dimensionsNode,hcount]
  rfl

theorem Annotations.filter {annots : List Node} (h : Annotations annots) :
    annots.filter isMeaningful = [] := by
  refine List.filter_eq_nil_iff.mpr fun n hn => ?_
  simp [isMeaningful,(h n hn).2]

section Constructs

variable {n : Node} {annots ns : List Node} {role : Option Role} {text : String}

theorem readsName_identifier (role : Option Role) (name : Identifier) :
    ReadsName (identifierNode role name) (.simple name []) := by
  refine ⟨rfl,.inl rfl,rfl,?_,rfl⟩
  rw [typeText_plain rfl,identifierNode,name.singleSpaced]
  simp [ClassType.print,TypeArgument.printAll,inAngles]

theorem readsName_scoped {left : Node} {outer : ClassType} (hleft : Reads left outer.reference)
    (hannots : Annotations annots) (lastRole : Option Role) (name : Identifier) :
    ReadsName (scopedNode role text left annots (identifierNode lastRole name))
      (.inner outer name []) := by
  have hlast := readsName_identifier lastRole name
  have hmeaningful : (scopedNode role text left annots (identifierNode lastRole name)).meaningful =
      [left] ++ [identifierNode lastRole name] := by
    simp only [Node.meaningful,scopedNode,List.cons_append,List.filter_cons,List.filter_append,
      hannots.filter,hleft.meaningful,hlast.reads.meaningful]
    rfl
  refine ⟨rfl,.inr rfl,rfl,?_,simpleName_of_last rfl hmeaningful rfl⟩
  have htext : typeText left = .ok outer.print := by rw [hleft.text,outer.reference_eq]
  rw [typeText_scoped rfl,hmeaningful]
  simp only [List.map_cons,List.map_nil,List.cons_append,List.nil_append,allOk,htext,hlast.text,bind,
    Except.bind,pure,Except.pure]
  simp [ClassType.print,TypeArgument.printAll,inAngles,String.append_assoc]

theorem allOk_typeText {nodes : List Node} {refs : List TypeRef} (h : List.Forall₂ Reads nodes refs) :
    allOk (nodes.map typeText) = .ok (refs.map TypeRef.text) :=
  allOk_map_eq_ok.mpr (List.forall₂_map_right_iff.mpr (h.imp fun _ _ hr => hr.text))

theorem allOk_typeRef {nodes : List Node} {refs : List TypeRef} (h : List.Forall₂ Reads nodes refs) :
    allOk (nodes.map typeRef) = .ok refs :=
  allOk_map_eq_ok.mpr (h.imp fun _ _ hr => hr.ref)

theorem reads_generic {base : Node} {c : ClassType} {arguments : List TypeArgument}
    (hbase : ReadsName base c) (hne : arguments ≠ [])
    (hargs : List.Forall₂ Reads (ns.filter isMeaningful) (arguments.map TypeArgument.reference))
    (listRole : Option Role) (listText : String) :
    Reads (genericNode role text base (argumentsNode listRole listText ns))
      (c.withArguments arguments).reference := by
  have hfound : (genericNode role text base (argumentsNode listRole listText ns)).children.find?
      isGenericBase = some base := by
    rcases hbase.kind with hk | hk <;> simp [genericNode,isGenericBase,hbase.named,hk]
  have hnodes : (genericNode role text base (argumentsNode listRole listText ns)).argumentNodes =
      ns.filter isMeaningful := by
    have hother : (base.named && decide (base.kind = .typeArguments)) = false := by
      rcases hbase.kind with hk | hk <;> simp [hk]
    simp [genericNode,argumentsNode,Node.argumentNodes,Node.argumentList?,hother,Node.meaningful,
      isMeaningful,mark]
  have htexts : (arguments.map TypeArgument.reference).map TypeRef.text =
      arguments.map TypeArgument.print := by
    rw [List.map_map]
    exact List.map_congr_left fun a _ => a.reference_text
  have htext : typeText (genericNode role text base (argumentsNode listRole listText ns)) =
      .ok (c.withArguments arguments).print := by
    rw [typeText_generic rfl,hfound,hnodes,allOk_typeText hargs,htexts,
      ClassType.print_withArguments hbase.bare hne]
    simp only [hbase.text]
    rfl
  refine ⟨rfl,rfl,?_,?_⟩
  · rw [htext,ClassType.reference_eq]
  · rw [typeRef_generic rfl,hfound,hnodes,allOk_typeRef hargs,htext,ClassType.reference_eq,
      ClassType.name_withArguments,ClassType.arguments_withArguments]
    simp only [hbase.name]
    rfl

theorem reads_primitive (role : Option Role) (children : List Node) (p : Primitive) :
    Reads { kind := p.kind,role,text := p.word,children } (JavaType.primitive p 0).reference := by
  refine reads_ofText rfl (by cases p <;> rfl) ?_
  rw [typeText_plain (by cases p <;> rfl),p.singleSpaced]
  simp [JavaType.print,pairsOfBrackets]

theorem reads_array {element : Node} {t : JavaType} {dims : String} {rank : Nat}
    (hrole : element.role = some .element) (helement : Reads element t.reference) (hrank : 0 < rank)
    (hdims : LaysOut dims rank) :
    Reads (arrayNode role text element (dimensionsNode dims rank)) (t.arrayOf rank).reference := by
  have hfirst : (arrayNode role text element (dimensionsNode dims rank)).child? .element =
      some element := by
    simp [Node.child?,arrayNode,hrole]
  have hsecond : (arrayNode role text element (dimensionsNode dims rank)).child? .dimensions =
      some (dimensionsNode dims rank) := by
    simp [Node.child?,arrayNode,hrole,dimensionsNode]
  rw [t.reference_arrayOf hrank]
  refine reads_ofText rfl rfl ?_
  rw [typeText_array rfl,hfirst,hsecond,brackets_dimensionsNode hdims,typeText?,helement.text,
    t.reference_text]
  rfl

theorem reads_annotated {t : TypeRef} (hannots : Annotations annots) (hn : Reads n t) :
    Reads (annotatedNode role text annots n) t := by
  have hlast : (annotatedNode role text annots n).meaningful.getLast? = some n := by
    simp [Node.meaningful,annotatedNode,List.filter_append,hannots.filter,hn.meaningful]
  refine ⟨rfl,rfl,?_,?_⟩
  · rw [typeText_annotated rfl,meaningOf,hlast]
    exact hn.text
  · rw [typeRef_annotated rfl,meaningOf,hlast]
    exact hn.ref

theorem wildcardBounds_annotations (hannots : Annotations annots) (rest : List Node) :
    wildcardBounds none ((annots ++ rest).map (Node.readWith textFrom)) =
      wildcardBounds none (rest.map (Node.readWith textFrom)) := by
  induction annots with
  | nil => rfl
  | cons a annots ih =>
    have hrest := ih fun b hb => hannots b (List.mem_cons_of_mem _ hb)
    have hkind := (hannots a (by simp)).2
    rw [List.cons_append,List.map_cons,wildcardBounds.eq_def]
    simp only [Node.readWith_node]
    cases hk : a.kind <;> simp_all [Kind.isAnnot]

theorem wildcardBounds_type {word : String} {t : TypeRef} (hn : Reads n t) :
    wildcardBounds (some word) [n.readWith textFrom] = .ok (" " ++ word ++ " " ++ t.text) := by
  have htype := hn.isType
  have hvalue : (n.readWith textFrom).value = .ok t.text := hn.text
  rw [wildcardBounds.eq_def]
  simp only [Node.readWith_node]
  cases hk : n.kind <;> simp_all [Kind.isType,wildcardBounds,bind,Except.bind,pure,Except.pure]

theorem reads_wildcard {bounds : List Node} {printed : String} (hannots : Annotations annots)
    (hbounds : wildcardBounds none (bounds.map (Node.readWith textFrom)) = .ok printed) :
    Reads (wildcardNode role text annots bounds) (.ofText ("?" ++ printed)) := by
  refine reads_ofText rfl rfl ?_
  rw [typeText_wildcard rfl,wildcardNode,wildcardBounds_annotations hannots]
  exact congrArg (fun r : Result String => r.map ("?" ++ ·)) hbounds

theorem reads_unbounded (hannots : Annotations annots) :
    Reads (wildcardNode role text annots []) TypeArgument.unbounded.reference := by
  have hbounds : wildcardBounds none (([] : List Node).map (Node.readWith textFrom)) = .ok "" := rfl
  exact reads_wildcard hannots hbounds

theorem reads_bounded {t : JavaType} (hannots : Annotations annots) (hn : Reads n t.reference)
    (bound : Bound) :
    Reads (wildcardNode role text annots [bound.mark,n]) (TypeArgument.bounded bound t).reference := by
  have hbounds : wildcardBounds none ([bound.mark,n].map (Node.readWith textFrom)) =
      .ok (" " ++ bound.word ++ " " ++ t.print) := by
    rw [← t.reference_text]
    cases bound <;> exact wildcardBounds_type hn
  have hprint : (TypeArgument.bounded bound t).reference =
      .ofText ("?" ++ (" " ++ bound.word ++ " " ++ t.print)) := by
    simp only [TypeArgument.reference,TypeArgument.print,TypeRef.ofText,← String.append_assoc]
    rfl
  rw [hprint]
  exact reads_wildcard hannots hbounds

end Constructs

-- The induction is on how a node is written: each construct is read from what is read of its parts.
mutual

theorem NameNode.reads {n : Node} {c : ClassType} (h : NameNode n c) : ReadsName n c := by
  match h with
  | .identifier role name => exact readsName_identifier role name
  | .scoped _ lastRole _ name hleft hannots => exact readsName_scoped hleft.reads hannots lastRole name

theorem ClassNode.reads {n : Node} {c : ClassType} (h : ClassNode n c) : Reads n c.reference := by
  match h with
  | .bare hname => exact hname.reads.reads
  | .generic _ listRole _ listText hname hargs =>
    obtain ⟨hne,hreads⟩ := hargs.reads
    exact reads_generic hname.reads hne hreads listRole listText

theorem ArgumentNodes.reads {ns : List Node} {arguments : List TypeArgument}
    (h : ArgumentNodes ns arguments) :
    arguments ≠ [] ∧
      List.Forall₂ Reads (ns.filter isMeaningful) (arguments.map TypeArgument.reference) := by
  match h with
  | .one hn =>
    have hread := hn.reads
    refine ⟨by simp,?_⟩
    rw [List.filter_cons_of_pos hread.meaningful]
    exact .cons hread .nil
  | .more hn hrest =>
    have hread := hn.reads
    refine ⟨by simp,?_⟩
    rw [List.filter_cons_of_pos hread.meaningful,List.filter_cons_of_neg (by simp [isMeaningful,mark])]
    exact .cons hread hrest.reads.2

theorem ArgumentNode.reads {n : Node} {a : TypeArgument} (h : ArgumentNode n a) :
    Reads n a.reference := by
  match h with
  | .type hn => exact hn.reads
  | .unbounded _ _ hannots => exact reads_unbounded hannots
  | .bounded _ _ bound hannots hn => exact reads_bounded hannots hn.reads bound

theorem TypeNode.reads {n : Node} {t : JavaType} (h : TypeNode n t) : Reads n t.reference := by
  match h with
  | .plain hn => exact hn.reads
  | .annotated _ _ _ hannots hn => exact reads_annotated hannots hn.reads

theorem PlainNode.reads {n : Node} {t : JavaType} (h : PlainNode n t) : Reads n t.reference := by
  match h with
  | .primitive role children p => exact reads_primitive role children p
  | .named hn => exact hn.reads
  | .array _ _ hrole helement hrank hdims => exact reads_array hrole helement.reads hrank hdims

end

theorem written_types_are_read {n : Node} {t : JavaType} (h : TypeNode n t) :
    typeRef n = .ok t.reference ∧ typeText n = .ok t.print := by
  have hread := h.reads
  refine ⟨hread.ref,?_⟩
  rw [hread.text,t.reference_text]

def nonNull : Node :=
  { kind := .markerAnnot,text := "@NonNull"
    children := [mark "@",{ kind := .identifier,text := "NonNull" }] }

def innerType : ClassType :=
  .inner (.simple ⟨"Outer",by decide⟩ [.type (.primitive .int 1)]) ⟨"Inner",by decide⟩ []

def innerNode : Node :=
  scopedNode none "Outer<int[ ]> . Inner"
    (genericNode none "Outer<int[ ]>" (identifierNode none ⟨"Outer",by decide⟩)
      (argumentsNode none "<int[ ]>" [arrayNode none "int[ ]"
        { kind := .integralType,role := some .element,text := "int" } (dimensionsNode "[ ]" 1)]))
    [] (identifierNode none ⟨"Inner",by decide⟩)

theorem innerNode_written : NameNode innerNode innerType := by
  have hints : PlainNode _ (.primitive .int 1) :=
    .array none "int[ ]" rfl (.primitive (some .element) [] .int) (by decide)
      (by decide : LaysOut "[ ]" 1)
  have houter := ClassNode.generic none none "Outer<int[ ]>" "<int[ ]>"
    (.identifier none ⟨"Outer",by decide⟩) (.one (.type (.plain hints)))
  exact .scoped none none _ _ houter (by simp [Annotations])

def listIdentifier : Identifier := ⟨"List",by decide⟩

def mapIdentifier : Identifier := ⟨"Map",by decide⟩

def entryType : JavaType :=
  .named (.inner (.simple ⟨"Map",by decide⟩ []) ⟨"Entry",by decide⟩
    [.bounded .lower (.named innerType 0),.type (.named (.simple ⟨"String",by decide⟩ []) 2)]) 0

def entryNode : Node :=
  annotatedNode (some .type)
    "@NonNull Map.@NonNull Entry<@NonNull ? super Outer<int[ ]> . Inner,\n String[] []>" [nonNull]
    (genericNode none "" (scopedNode none "Map.@NonNull Entry"
        (identifierNode none ⟨"Map",by decide⟩) [nonNull] (identifierNode none ⟨"Entry",by decide⟩))
      (argumentsNode none "" [wildcardNode none "" [nonNull] [Bound.lower.mark,innerNode],mark ",",
        arrayNode none "String[] []" (identifierNode (some .element) ⟨"String",by decide⟩)
          (dimensionsNode "[] []" 2)]))

theorem entryNode_written : TypeNode entryNode entryType := by
  have hannots : Annotations [nonNull] := by simp [Annotations,nonNull,Kind.isAnnot]
  have hstrings : PlainNode _ (.named (.simple ⟨"String",by decide⟩ []) 2) :=
    .array none "String[] []" rfl (.named (.bare (.identifier (some .element) ⟨"String",by decide⟩)))
      (by decide) (by decide : LaysOut "[] []" 2)
  have harguments := ArgumentNodes.more
    (.bounded none "" .lower hannots (.plain (.named (.bare innerNode_written))))
    (.one (.type (.plain hstrings)))
  have hentry := NameNode.scoped none none "Map.@NonNull Entry" ⟨"Entry",by decide⟩
    (.bare (.identifier none ⟨"Map",by decide⟩)) hannots
  exact .annotated _ _ (by simp) hannots (.named (.generic none none "" "" hentry harguments))

theorem written_types_are_read_entry :
    TypeNode entryNode entryType ∧ typeRef entryNode = .ok entryType.reference ∧
    typeText entryNode = .ok "Map.Entry<? super Outer<int[]>.Inner, String[][]>" := by
  obtain ⟨href,htext⟩ := written_types_are_read entryNode_written
  have hprint : entryType.print = "Map.Entry<? super Outer<int[]>.Inner, String[][]>" := by decide
  exact ⟨entryNode_written,href,hprint ▸ htext⟩

end ClassDiagram.Java
