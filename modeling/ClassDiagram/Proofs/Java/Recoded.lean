import ClassDiagram.Proofs.Java.Comments

/-!
Trees that differ only in executable code: in the bodies of methods and constructors, in the initialisers of
type bodies, in the arguments and bodies of enum constants and in the values of fields. Names, modifiers and
types are read from them alike.

Trees need not follow the grammar, so a node of code may be read after all where the node around it stands
out of place, as an enum constant does in the place of a body. These places are told apart by the kinds
and roles of the two nodes and the kind of the node around both.
-/

namespace ClassDiagram.Java

def Kind.isField (k : Kind) : Bool := k = .fieldDecl || k = .constantDecl

def Kind.isRoutine (k : Kind) : Bool := k = .methodDecl || k = .constructorDecl

def Kind.isTypeBody : Kind → Bool
  | .enumBodyDecls => true
  | .other name => name ∈ ["class_body","interface_body","enum_body"]
  | _ => false

def Kind.isCode (k : Kind) : Bool := k = .block || k = .constructorBody || k = .staticInitializer

-- The nodes whose code may be of any kind.
def Kind.holdsAny (k : Kind) : Bool := k = .enumConstant || k = .variableDeclarator

-- What is read from a list: members, parameters, type parameters and what stands in a file.
def Kind.isListed (k : Kind) : Bool :=
  k.isMember || (formOf? k).isSome || k = .formalParameter || k = .spreadParameter ||
    k = .typeParameter || k = .packageDecl || k = .importDecl

def Kind.rolesRead : Kind → List Role
  | .classDecl | .interfaceDecl | .enumDecl | .recordDecl => [.name,.typeParameters,.body]
  | .enumConstant => [.name]
  | .fieldDecl | .constantDecl => [.type,.declarator]
  | .methodDecl => [.name,.type,.parameters]
  | .constructorDecl => [.name,.parameters]
  | .formalParameter => [.name,.type,.dimensions]
  | _ => []

section Places

variable (g : Option Kind) (p c : Node)

def inTypeDecl : Bool := (g.bind formOf?).isSome

def inField : Bool := (g.map Kind.isField).getD false

def inRoutine : Bool := (g.map Kind.isRoutine).getD false

-- A child of a node is code by its place; `g` is the kind of the node around both, absent at the root.
inductive Code : Prop
  | routine : p.kind.isRoutine = true → c.role = some .body →
      c.kind = .block ∨ c.kind = .constructorBody → Code
  | initializer : inTypeDecl g = true ∧ p.role = some .body ∨ p.kind.isTypeBody = true →
      c.kind = .staticInitializer ∨ c.kind = .block → Code
  | constant : p.kind = .enumConstant → c.role = some .body ∨ c.role = some .arguments → Code
  | value : inField g = true → p.kind = .variableDeclarator → c.role = some .value → Code

def ReadAsList : Prop :=
  g = none ∨ inTypeDecl g = true ∧ (p.role = some .body ∨ p.role = some .typeParameters) ∨
    inRoutine g = true ∧ p.role = some .parameters

-- The places where code is read after all.
inductive Misread : Prop
  | listed : p.kind = .enumConstant → ReadAsList g p → c.named = true → c.kind.isListed = true → Misread
  | modifier : p.kind = .modifiers → Misread
  | part {role : Role} : c.role = some role → role ∈ p.kind.rolesRead → Misread
  | declarator : inField g = true → p.role = some .declarator →
      c.role = some .name ∨ c.role = some .dimensions → Misread

structure Sealed : Prop where
  code : Code g p c
  unread : ¬ Misread g p c

end Places

-- Trees that differ only in the texts and children of nodes that are code.
mutual

inductive Recoded (code : Option Kind → Node → Node → Prop) : Option Kind → Node → Node → Prop
  | node {g : Option Kind} {n : Node} {ds : List Node} :
      RecodedAll code g n n.children ds → Recoded code g n { n with children := ds }

inductive RecodedAll (code : Option Kind → Node → Node → Prop) :
    Option Kind → Node → List Node → List Node → Prop
  | nil {g : Option Kind} {p : Node} : RecodedAll code g p [] []
  | kept {g : Option Kind} {p c d : Node} {cs ds : List Node} : Recoded code (some p.kind) c d →
      RecodedAll code g p cs ds → RecodedAll code g p (c :: cs) (d :: ds)
  | replaced {g : Option Kind} {p c : Node} {cs ds : List Node} (text : String) (children : List Node) :
      code g p c → RecodedAll code g p cs ds →
      RecodedAll code g p (c :: cs) ({ c with text,children } :: ds)

end

structure SameSlot (c d : Node) : Prop where
  kind : d.kind = c.kind
  named : d.named = c.named
  role : d.role = c.role

section Selection

variable {code : Option Kind → Node → Node → Prop} {g : Option Kind} {n m : Node}

theorem Recoded.text (h : Recoded code g n m) : m.text = n.text := by
  cases h with
  | node _ => rfl

theorem Recoded.same (h : Recoded code g n m) : SameSlot n m := by
  cases h with
  | node _ => exact ⟨rfl,rfl,rfl⟩

theorem Recoded.kind (h : Recoded code g n m) : m.kind = n.kind := h.same.kind

inductive Slot (code : Option Kind → Node → Node → Prop) (g : Option Kind) (p : Node) : Node → Node → Prop
  | kept {c d : Node} : Recoded code (some p.kind) c d → Slot code g p c d
  | replaced {c d : Node} : code g p c → SameSlot c d → Slot code g p c d

theorem Slot.same {p c d : Node} (h : Slot code g p c d) : SameSlot c d := by
  cases h with
  | kept h => exact h.same
  | replaced _ h => exact h

theorem RecodedAll.slots {p : Node} {cs ds : List Node} (h : RecodedAll code g p cs ds) :
    List.Forall₂ (Slot code g p) cs ds := by
  match h with
  | .nil => exact .nil
  | .kept hc hcs => exact .cons (.kept hc) hcs.slots
  | .replaced text children hc hcs => exact .cons (.replaced hc ⟨rfl,rfl,rfl⟩) hcs.slots

theorem Recoded.slots (h : Recoded code g n m) : List.Forall₂ (Slot code g n) n.children m.children := by
  cases h with
  | node h => exact h.slots

theorem filter_slots {p : Node} {cs ds : List Node} {select : Node → Bool}
    (h : List.Forall₂ (Slot code g p) cs ds) (hsame : ∀ c d, SameSlot c d → select d = select c)
    (hread : ∀ c, select c = true → ¬ code g p c) :
    List.Forall₂ (Recoded code (some p.kind)) (cs.filter select) (ds.filter select) := by
  induction h with
  | nil => exact .nil
  | @cons c d cs ds hcd _ ih =>
    rw [List.filter_cons,List.filter_cons,hsame c d hcd.same]
    split
    · rename_i hselected
      cases hcd with
      | kept h => exact .cons h ih
      | replaced hcode _ => exact absurd hcode (hread c hselected)
    · exact ih

theorem rel_head? {α : Type} {R : α → α → Prop} {xs ys : List α} (h : List.Forall₂ R xs ys) :
    (xs.head? = none ∧ ys.head? = none) ∨
      ∃ x y, xs.head? = some x ∧ ys.head? = some y ∧ R x y := by
  cases h with
  | nil => exact .inl ⟨rfl,rfl⟩
  | cons hxy _ => exact .inr ⟨_,_,rfl,rfl,hxy⟩

theorem rel_getLast? {α : Type} {R : α → α → Prop} {xs ys : List α} (h : List.Forall₂ R xs ys) :
    (xs.getLast? = none ∧ ys.getLast? = none) ∨
      ∃ x y, xs.getLast? = some x ∧ ys.getLast? = some y ∧ R x y := by
  simpa only [List.head?_reverse] using rel_head? (List.rel_reverse h)

end Selection

namespace Sealed

variable {g : Option Kind} {p c : Node}

theorem isCode (h : Sealed g p c) (hp : p.kind.holdsAny = false) : c.kind.isCode = true := by
  cases h.code with
  | routine _ _ hk => rcases hk with hk | hk <;> rw [hk] <;> rfl
  | initializer _ hk => rcases hk with hk | hk <;> rw [hk] <;> rfl
  | constant hk _ => simp [hk,Kind.holdsAny] at hp
  | value _ hk _ => simp [hk,Kind.holdsAny] at hp

theorem not_kind (k : Kind → Bool)
    (hk : k .block = false ∧ k .constructorBody = false ∧ k .staticInitializer = false)
    (hp : p.kind.holdsAny = false) (hc : k c.kind = true) : ¬ Sealed g p c := by
  intro h
  have hcode := h.isCode hp
  simp only [Kind.isCode,Bool.or_eq_true,decide_eq_true_eq] at hcode
  rcases hcode with (hcode | hcode) | hcode <;> simp_all

theorem not_part {role : Role} (hrole : c.role = some role) (hread : role ∈ p.kind.rolesRead) :
    ¬ Sealed g p c :=
  fun h => h.unread (.part hrole hread)

theorem not_listed (hlist : ReadAsList g p) (hnamed : c.named = true) (hk : c.kind.isListed = true) :
    ¬ Sealed g p c := by
  intro h
  cases h.code with
  | routine _ _ hc => rcases hc with hc | hc <;> rw [hc] at hk <;> cases hk
  | initializer _ hc => rcases hc with hc | hc <;> rw [hc] at hk <;> cases hk
  | constant hp _ => exact h.unread (.listed hp hlist hnamed hk)
  | value hg _ _ =>
    rcases hlist with rfl | ⟨hdecl,_⟩ | ⟨hroutine,_⟩
    · cases hg
    · cases g with
      | none => cases hg
      | some k => cases k <;> simp_all [inField,inTypeDecl,Kind.isField,formOf?]
    · cases g with
      | none => cases hg
      | some k => cases k <;> simp_all [inField,inRoutine,Kind.isField,Kind.isRoutine]

end Sealed

section Reading

variable {α : Type} {g : Option Kind} {n m : Node} {q : Node → Bool}

namespace Recoded

theorem filter (h : Recoded Sealed g n m) (hsame : ∀ c d, SameSlot c d → q d = q c)
    (hread : ∀ c, q c = true → ¬ Sealed g n c) :
    List.Forall₂ (fun c d => (c ∈ n.children ∧ q c = true) ∧ Recoded Sealed (some n.kind) c d)
      (n.children.filter q) (m.children.filter q) :=
  (List.forall₂_and_left _ _).mpr ⟨fun _ hc => List.mem_filter.mp hc,filter_slots h.slots hsame hread⟩

theorem map_filter (h : Recoded Sealed g n m) (hsame : ∀ c d, SameSlot c d → q d = q c)
    (hread : ∀ c, q c = true → ¬ Sealed g n c) {read : Node → α}
    (hbelow : ∀ c ∈ n.children, q c = true → ∀ d, Recoded Sealed (some n.kind) c d → read d = read c) :
    (m.children.filter q).map read = (n.children.filter q).map read :=
  map_eq_of_forall₂ ((h.filter hsame hread).imp fun c d hcd => hbelow c hcd.1.1 hcd.1.2 d hcd.2)

theorem find? (h : Recoded Sealed g n m) (hsame : ∀ c d, SameSlot c d → q d = q c)
    (hread : ∀ c, q c = true → ¬ Sealed g n c) :
    (n.children.find? q = none ∧ m.children.find? q = none) ∨
      ∃ c d, n.children.find? q = some c ∧ m.children.find? q = some d ∧
        (c ∈ n.children ∧ q c = true) ∧ Recoded Sealed (some n.kind) c d := by
  simpa only [List.head?_filter] using rel_head? (h.filter hsame hread)

theorem getLast? (h : Recoded Sealed g n m) (hsame : ∀ c d, SameSlot c d → q d = q c)
    (hread : ∀ c, q c = true → ¬ Sealed g n c) :
    ((n.children.filter q).getLast? = none ∧ (m.children.filter q).getLast? = none) ∨
      ∃ c d, (n.children.filter q).getLast? = some c ∧ (m.children.filter q).getLast? = some d ∧
        (c ∈ n.children ∧ q c = true) ∧ Recoded Sealed (some n.kind) c d :=
  rel_getLast? (h.filter hsame hread)

theorem child? (h : Recoded Sealed g n m) {role : Role}
    (hread : ∀ c, c.role = some role → ¬ Sealed g n c) :
    (n.child? role = none ∧ m.child? role = none) ∨
      ∃ c d, n.child? role = some c ∧ m.child? role = some d ∧
        (c ∈ n.children ∧ c.role = some role) ∧ Recoded Sealed (some n.kind) c d := by
  have hfind := h.find? (q := (·.role = some role)) (fun _ _ hcd => by rw [hcd.role])
    fun c hc => hread c (by simpa using hc)
  simpa only [Node.child?,decide_eq_true_eq] using hfind

theorem read_child? (h : Recoded Sealed g n m) {role : Role}
    (hread : ∀ c, c.role = some role → ¬ Sealed g n c) (read : Option Node → α)
    (hbelow : ∀ c ∈ n.children, c.role = some role → ∀ d, Recoded Sealed (some n.kind) c d →
      read (some d) = read (some c)) :
    read (m.child? role) = read (n.child? role) := by
  rcases h.child? hread with ⟨hn,hm⟩ | ⟨c,d,hn,hm,hc,hcd⟩ <;> rw [hn,hm]
  exact hbelow c hc.1 hc.2 d hcd

theorem named? (h : Recoded Sealed g n m) (k : Kind → Bool)
    (hk : k .block = false ∧ k .constructorBody = false ∧ k .staticInitializer = false)
    (hn : n.kind.holdsAny = false) :
    (n.namedChildren.find? (k ·.kind) = none ∧ m.namedChildren.find? (k ·.kind) = none) ∨
      ∃ c d, n.namedChildren.find? (k ·.kind) = some c ∧ m.namedChildren.find? (k ·.kind) = some d ∧
        (c ∈ n.children ∧ k c.kind = true) ∧ Recoded Sealed (some n.kind) c d := by
  have hfind := h.find? (q := fun c => c.named = true ∧ k c.kind = true)
    (fun _ _ hcd => by rw [hcd.named,hcd.kind]) fun c hc => Sealed.not_kind k hk hn (of_decide_eq_true hc).2
  simp only [Node.namedChildren,List.find?_filter]
  rcases hfind with hnone | ⟨c,d,hn,hm,hc,hcd⟩
  · exact .inl hnone
  · exact .inr ⟨c,d,hn,hm,⟨hc.1,(of_decide_eq_true hc.2).2⟩,hcd⟩

theorem namedChildren (h : Recoded Sealed g n m) :
    List.Forall₂ (fun c d => c ∈ n.namedChildren ∧ Slot Sealed g n c d) n.namedChildren m.namedChildren := by
  have hslots : List.Forall₂ (Slot Sealed g n) n.namedChildren m.namedChildren :=
    List.rel_filter (fun c d hcd => by simp [hcd.same.named]) h.slots
  exact (List.forall₂_and_left _ _).mpr ⟨fun _ hc => hc,hslots⟩

end Recoded

end Reading

section Names

variable {g : Option Kind} {n m : Node}

namespace Recoded

theorem nameOf_eq (h : Recoded Sealed g n m) (hread : ∀ c, c.role = some .name → ¬ Sealed g n c) :
    nameOf m = nameOf n := by
  rw [nameOf,nameOf]
  rcases h.child? hread with ⟨hn,hm⟩ | ⟨c,d,hn,hm,_,hcd⟩ <;> rw [hn,hm]
  exact hcd.text

theorem brackets_eq (h : Recoded Sealed g n m)
    (hread : ∀ c, c.role = some .dimensions → ¬ Sealed g n c) :
    brackets (m.child? .dimensions) = brackets (n.child? .dimensions) := by
  refine h.read_child? hread brackets fun c _ _ d hcd => ?_
  rw [brackets,brackets,hcd.text]

theorem modifiersOf_eq (h : Recoded Sealed g n m) (hn : n.kind.holdsAny = false) :
    modifiersOf m = modifiersOf n := by
  have hfind := h.find? (q := (·.kind = .modifiers)) (fun _ _ hcd => by rw [hcd.kind])
    fun c => Sealed.not_kind (· = .modifiers) ⟨rfl,rfl,rfl⟩ hn
  rw [modifiersOf,modifiersOf]
  rcases hfind with ⟨hn,hm⟩ | ⟨c,d,hn,hm,hc,hcd⟩ <;> rw [hn,hm]
  refine hcd.map_filter (fun _ _ hxy => by rw [hxy.kind]) (fun x _ hcode => ?_) fun x _ _ y hxy => hxy.text
  exact hcode.unread (.modifier (by simpa using hc.2))

end Recoded

end Names

section Types

variable {α : Type} {g : Option Kind} {n m : Node}

theorem Kind.isComposite_iff {k : Kind} :
    k.isComposite = true ↔ k = .annotatedType ∨ k = .genericType ∨ k = .scopedTypeIdentifier ∨
      k = .arrayType ∨ k = .wildcard := by
  cases k <;> simp [Kind.isComposite]

def Kind.holdsTypes (k : Kind) : Bool := k.isComposite || k = .typeArguments

theorem inTypeDecl_of_holdsTypes {k : Kind} (hk : k.holdsTypes = true) : inTypeDecl (some k) = false := by
  cases k <;> simp_all [Kind.holdsTypes,Kind.isComposite,inTypeDecl,formOf?]

theorem Sealed.not_in_type {c : Node} (hg : inTypeDecl g = false) (hk : n.kind.holdsTypes = true) :
    ¬ Sealed g n c := by
  intro h
  cases h.code with
  | routine hp _ _ => cases hp' : n.kind <;> simp_all [Kind.holdsTypes,Kind.isComposite,Kind.isRoutine]
  | initializer hp _ =>
    rcases hp with ⟨hdecl,_⟩ | hp
    · rw [hg] at hdecl
      cases hdecl
    · cases hp' : n.kind <;> simp_all [Kind.holdsTypes,Kind.isComposite,Kind.isTypeBody]
  | constant hp _ => simp [hp,Kind.holdsTypes,Kind.isComposite] at hk
  | value _ hp _ => simp [hp,Kind.holdsTypes,Kind.isComposite] at hk

namespace Recoded

theorem map_meaningful (h : Recoded Sealed g n m) (hg : inTypeDecl g = false)
    (hk : n.kind.holdsTypes = true) {read : Node → α}
    (hbelow : ∀ c ∈ n.children, ∀ d, Recoded Sealed (some n.kind) c d → read d = read c) :
    m.meaningful.map read = n.meaningful.map read :=
  h.map_filter (fun _ _ hcd => by rw [isMeaningful,isMeaningful,hcd.named,hcd.kind])
    (fun _ _ => Sealed.not_in_type hg hk) fun c hc _ => hbelow c hc

theorem meaningOf_eq (h : Recoded Sealed g n m) (hg : inTypeDecl g = false)
    (hk : n.kind.holdsTypes = true) {read : Node → Result α}
    (hbelow : ∀ c ∈ n.children, ∀ d, Recoded Sealed (some n.kind) c d → read d = read c) :
    meaningOf read m = meaningOf read n := by
  have hlast := h.getLast? (q := isMeaningful)
    (fun _ _ hcd => by rw [isMeaningful,isMeaningful,hcd.named,hcd.kind])
    fun _ _ => Sealed.not_in_type hg hk
  rw [meaningOf,meaningOf,Node.meaningful,Node.meaningful]
  rcases hlast with ⟨hn,hm⟩ | ⟨c,d,hn,hm,hc,hcd⟩ <;> rw [hn,hm]
  exact hbelow c hc.1 d hcd

theorem map_arguments (h : Recoded Sealed g n m) (hg : inTypeDecl g = false)
    (hk : n.kind = .genericType) {read : Node → α}
    (hbelow : ∀ c, sizeOf c < sizeOf n → ∀ k d, inTypeDecl (some k) = false →
      Recoded Sealed (some k) c d → read d = read c) :
    m.argumentNodes.map read = n.argumentNodes.map read := by
  have hholds : n.kind.holdsTypes = true := by rw [hk]; rfl
  have hlast := h.getLast? (q := fun c => c.named && c.kind = .typeArguments)
    (fun _ _ hcd => by rw [hcd.named,hcd.kind]) fun _ _ => Sealed.not_in_type hg hholds
  rw [Node.argumentNodes,Node.argumentNodes,Node.argumentList?,Node.argumentList?]
  rcases hlast with ⟨hn,hm⟩ | ⟨list,other,hn,hm,hlist,hother⟩ <;> rw [hn,hm]
  have harguments : list.kind.holdsTypes = true := by simp_all [Kind.holdsTypes]
  refine hother.map_meaningful (inTypeDecl_of_holdsTypes hholds) harguments fun c hc d hcd => ?_
  have hsize := Nat.lt_trans (Node.sizeOf_lt_of_mem_children hc) (Node.sizeOf_lt_of_mem_children hlist.1)
  exact hbelow c hsize _ d (inTypeDecl_of_holdsTypes harguments) hcd

theorem genericBase (h : Recoded Sealed g n m) (hg : inTypeDecl g = false)
    (hk : n.kind = .genericType) :
    (n.children.find? isGenericBase = none ∧ m.children.find? isGenericBase = none) ∨
      ∃ c d, n.children.find? isGenericBase = some c ∧ m.children.find? isGenericBase = some d ∧
        (c ∈ n.children ∧ isGenericBase c = true) ∧ Recoded Sealed (some n.kind) c d :=
  h.find? (fun _ _ hcd => by rw [isGenericBase,isGenericBase,hcd.named,hcd.kind])
    fun _ _ => Sealed.not_in_type hg (by rw [hk]; rfl)

end Recoded

theorem wildcardBounds_of_forall₂ {cs ds : List Node}
    (h : List.Forall₂ (fun c d => d.kind = c.kind ∧ typeText d = typeText c) cs ds) (word : Option String) :
    wildcardBounds word (ds.map (Node.readWith textFrom)) =
      wildcardBounds word (cs.map (Node.readWith textFrom)) := by
  induction h generalizing word with
  | nil => rfl
  | @cons c d cs ds hcd _ ih =>
    have hvalue : (d.readWith textFrom).value = (c.readWith textFrom).value := hcd.2
    simp only [List.map_cons,wildcardBounds,Node.readWith_node,hcd.1,hvalue,ih]

theorem typeText_recoded (h : Recoded Sealed g n m) (hg : inTypeDecl g = false) :
    typeText m = typeText n := by
  induction n using Node.size_induction generalizing g m with
  | step n ih =>
    have hkind := h.kind
    cases hcomposite : n.kind.isComposite with
    | false => rw [typeText_plain (by rwa [hkind]),typeText_plain hcomposite,h.text]
    | true =>
      have hholds : n.kind.holdsTypes = true := by simp [Kind.holdsTypes,hcomposite]
      have hread : ∀ c, ¬ Sealed g n c := fun c => Sealed.not_in_type hg hholds
      have hbelow : ∀ c ∈ n.children, ∀ d, Recoded Sealed (some n.kind) c d → typeText d = typeText c :=
        fun c hc d hcd => ih c (Node.sizeOf_lt_of_mem_children hc) hcd (inTypeDecl_of_holdsTypes hholds)
      rcases Kind.isComposite_iff.mp hcomposite with hk | hk | hk | hk | hk
      · rw [typeText_annotated (hkind.trans hk),typeText_annotated hk,h.meaningOf_eq hg hholds hbelow]
      · have harguments := h.map_arguments hg hk fun c hc k d hk hcd => ih c hc hcd hk
        rw [typeText_generic (hkind.trans hk),typeText_generic hk,harguments]
        rcases h.genericBase hg hk with ⟨hn,hm⟩ | ⟨c,d,hn,hm,hc,hcd⟩ <;> rw [hn,hm]
        simp only [hbelow c hc.1 d hcd]
      · rw [typeText_scoped (hkind.trans hk),typeText_scoped hk,h.map_meaningful hg hholds hbelow]
      · have helement := h.read_child? (fun c (_ : c.role = some .element) => hread c) typeText?
          fun c hc _ => hbelow c hc
        rw [typeText_array (hkind.trans hk),typeText_array hk,helement,h.brackets_eq fun c _ => hread c]
      · have hall := h.filter (q := fun _ => true) (fun _ _ _ => rfl) fun c _ => hread c
        simp only [List.filter_true] at hall
        rw [typeText_wildcard (hkind.trans hk),typeText_wildcard hk,
          wildcardBounds_of_forall₂ (hall.imp fun c d hcd => ⟨hcd.2.kind,hbelow c hcd.1.1 d hcd.2⟩)]

theorem simpleName_recoded (h : Recoded Sealed g n m) (hg : inTypeDecl g = false) :
    simpleName m = simpleName n := by
  rw [simpleName,simpleName,h.kind]
  split
  · rename_i hk
    have hlast := h.getLast? (q := fun c => c.named && c.kind = .typeIdentifier)
      (fun _ _ hcd => by rw [hcd.named,hcd.kind]) fun _ _ => Sealed.not_in_type hg (by rw [hk]; rfl)
    rcases hlast with ⟨hn,hm⟩ | ⟨c,d,hn,hm,hc,hcd⟩ <;> rw [hn,hm]
    simp only [hcd.text]
  · rw [h.text]

theorem typeRef_recoded (h : Recoded Sealed g n m) (hg : inTypeDecl g = false) :
    typeRef m = typeRef n := by
  induction n using Node.size_induction generalizing g m with
  | step n ih =>
    have hkind := h.kind
    have htext := typeText_recoded h hg
    by_cases hannotated : n.kind = .annotatedType
    · have hholds : n.kind.holdsTypes = true := by rw [hannotated]; rfl
      rw [typeRef_annotated (hkind.trans hannotated),typeRef_annotated hannotated]
      exact h.meaningOf_eq hg hholds fun c hc d hcd =>
        ih c (Node.sizeOf_lt_of_mem_children hc) hcd (inTypeDecl_of_holdsTypes hholds)
    by_cases hnamed : n.kind = .typeIdentifier ∨ n.kind = .scopedTypeIdentifier
    · rw [typeRef_named (by rwa [hkind]),typeRef_named hnamed,htext,simpleName_recoded h hg]
    by_cases hgeneric : n.kind = .genericType
    · have hholds : n.kind.holdsTypes = true := by rw [hgeneric]; rfl
      have harguments := h.map_arguments hg hgeneric fun c hc k d hk hcd => ih c hc hcd hk
      rw [typeRef_generic (hkind.trans hgeneric),typeRef_generic hgeneric,htext,harguments]
      rcases h.genericBase hg hgeneric with ⟨hn,hm⟩ | ⟨c,d,hn,hm,hc,hcd⟩ <;> rw [hn,hm]
      simp only [simpleName_recoded hcd (inTypeDecl_of_holdsTypes hholds)]
    · have hnot : n.kind ≠ .typeIdentifier ∧ n.kind ≠ .scopedTypeIdentifier := not_or.mp hnamed
      rw [typeRef_unnamed (by rwa [hkind]) (by rw [hkind]; exact hnot.1) (by rw [hkind]; exact hnot.2)
        (by rwa [hkind]),typeRef_unnamed hannotated hnot.1 hnot.2 hgeneric,htext]

theorem elementRef_recoded (h : Recoded Sealed g n m) (hg : inTypeDecl g = false) :
    elementRef m = elementRef n := by
  induction n using Node.size_induction generalizing g m with
  | step n ih =>
    have hkind := h.kind
    have hbelow : n.kind.holdsTypes = true → ∀ c ∈ n.children, ∀ d, Recoded Sealed (some n.kind) c d →
        elementRef d = elementRef c := fun hk c hc d hcd =>
      ih c (Node.sizeOf_lt_of_mem_children hc) hcd (inTypeDecl_of_holdsTypes hk)
    by_cases hannotated : n.kind = .annotatedType
    · have hholds : n.kind.holdsTypes = true := by rw [hannotated]; rfl
      rw [elementRef_annotated (hkind.trans hannotated),elementRef_annotated hannotated]
      exact h.meaningOf_eq hg hholds (hbelow hholds)
    by_cases harray : n.kind = .arrayType
    · have hholds : n.kind.holdsTypes = true := by rw [harray]; rfl
      rw [elementRef_array (hkind.trans harray),elementRef_array harray]
      exact h.read_child? (fun c _ => Sealed.not_in_type hg hholds) elementRef?
        fun c hc _ => hbelow hholds c hc
    · rw [elementRef_plain (by rwa [hkind]) (by rwa [hkind]),elementRef_plain hannotated harray]
      exact typeRef_recoded h hg

end Types

end ClassDiagram.Java
