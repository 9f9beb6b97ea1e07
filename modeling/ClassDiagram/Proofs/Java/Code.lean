import ClassDiagram.Proofs.Java.RecodedMembers

/-!
Executable code is not read. The bodies of methods, initialisers and the code of enum constants and fields may
hold any nodes, declarations included: two trees that differ only there are read as the same source file, or
fail alike.
-/

namespace ClassDiagram.Java

section Units

variable {α : Type} {g : Option Kind} {n m root other : Node}

theorem filterMap_recoded (h : Recoded Sealed none root other) {read : Node → Option α}
    (hkept : ∀ c d, Recoded Sealed (some root.kind) c d → read d = read c)
    (hidle : ∀ c : Node, ¬ c.kind.isListed = true → read c = none) :
    other.namedChildren.filterMap read = root.namedChildren.filterMap read := by
  refine filterMap_eq_of_forall₂ (h.namedChildren.imp fun c d hcd => ?_)
  obtain ⟨hc,hslot⟩ := hcd
  cases hslot with
  | kept hcd => exact hkept c d hcd
  | replaced hcode hsame =>
    have hnot : ¬ c.kind.isListed = true := fun hk =>
      Sealed.not_listed (.inl rfl) (List.mem_filter.mp hc).2 hk hcode
    rw [hidle c hnot,hidle d (by rwa [hsame.kind])]

theorem nameNode?_recoded (h : Recoded Sealed g n m) (hn : n.kind.holdsAny = false) :
    (nameNode? m).map Node.text = (nameNode? n).map Node.text := by
  rw [nameNode?,nameNode?]
  rcases h.named? Kind.isName ⟨rfl,rfl,rfl⟩ hn with ⟨hn,hm⟩ | ⟨c,d,hn,hm,_,hcd⟩ <;> rw [hn,hm]
  exact congrArg some hcd.text

theorem any_kind_recoded (h : Recoded Sealed g n m) (k : Kind) :
    m.children.any (·.kind = k) = n.children.any (·.kind = k) := by
  have hall := h.slots
  generalize n.children = cs,m.children = ds at hall
  induction hall with
  | nil => rfl
  | cons hcd _ ih => rw [List.any_cons,List.any_cons,hcd.same.kind,ih]

theorem importOf?_recoded (h : Recoded Sealed g n m) (hn : n.kind.holdsAny = false) :
    importOf? m = importOf? n := by
  have hname := nameNode?_recoded h hn
  rw [importOf?,importOf?,any_kind_recoded h,any_kind_recoded h]
  cases hn : nameNode? n <;> cases hm : nameNode? m <;> simp_all

theorem filterMap_kind_recoded (h : Recoded Sealed none root other) {k : Kind} (hlisted : k.isListed = true)
    {read : Node → Option α}
    (hkept : ∀ c d, c.kind = k → Recoded Sealed (some root.kind) c d → read d = read c) :
    (other.namedChildren.filter (·.kind = k)).filterMap read =
      (root.namedChildren.filter (·.kind = k)).filterMap read := by
  rw [List.filterMap_filter,List.filterMap_filter]
  refine filterMap_recoded h (fun c d hcd => ?_) fun c hc => if_neg fun hk => hc ?_
  · rw [hcd.kind]
    split
    · rename_i hk
      exact hkept c d (of_decide_eq_true hk) hcd
    · rfl
  · rwa [of_decide_eq_true hk]

theorem packageOf_recoded (h : Recoded Sealed none root other) : packageOf other = packageOf root := by
  have hnames := filterMap_kind_recoded h (k := .packageDecl) rfl fun c d hk hcd =>
    nameNode?_recoded hcd (by rw [hk]; rfl)
  rw [packageOf,packageOf,← List.getLast?_map,← List.getLast?_map,List.map_filterMap,List.map_filterMap,hnames]

theorem importsOf_recoded (h : Recoded Sealed none root other) : importsOf other = importsOf root :=
  filterMap_kind_recoded h (k := .importDecl) rfl fun _ _ hk hcd => importOf?_recoded hcd (by rw [hk]; rfl)

theorem declarations_recoded (h : Recoded Sealed none root other) :
    other.namedChildren.filterMap (fun n => (formOf? n.kind).map fun form => declarationOf form n) =
      root.namedChildren.filterMap fun n => (formOf? n.kind).map fun form => declarationOf form n := by
  refine filterMap_recoded h (fun c d hcd => ?_) fun c hc => ?_
  · rw [hcd.kind]
    cases hf : formOf? c.kind with
    | none => rfl
    | some form =>
      refine congrArg some (declarationOf_recoded hcd hf fun b _ hrole e hbe => ?_)
      exact bodyOf_recoded hbe (.inl (.inr (.inl ⟨by simp [inTypeDecl,hf],.inl hrole⟩)))
  · have hf : formOf? c.kind = none := by simp_all [Kind.isListed]
    rw [hf]
    rfl

end Units

theorem code_is_not_read (path : String) (root other : Node) (h : Recoded Sealed none root other) :
    unitOf path other = unitOf path root := by
  rw [unitOf_eq,unitOf_eq,declarations_recoded h,packageOf_recoded h,importsOf_recoded h]

section Places

variable {g : Option Kind} {p c : Node}

theorem sealed_routine (hp : p.kind.isRoutine = true) (hrole : c.role = some .body)
    (hk : c.kind = .block ∨ c.kind = .constructorBody) : Sealed g p c := by
  refine ⟨.routine hp hrole hk,fun h => ?_⟩
  cases h with
  | listed hc _ _ _ => simp [hc,Kind.isRoutine] at hp
  | modifier hc => simp [hc,Kind.isRoutine] at hp
  | part hr hread =>
    obtain rfl := Option.some.inj (hrole.symm.trans hr)
    cases hk : p.kind <;> simp_all [Kind.isRoutine,Kind.rolesRead]
  | declarator _ _ hr => simp [hrole] at hr

theorem sealed_value (hg : inField g = true) (hp : p.kind = .variableDeclarator)
    (hrole : c.role = some .value) : Sealed g p c := by
  refine ⟨.value hg hp hrole,fun h => ?_⟩
  cases h with
  | listed hc _ _ _ => simp [hp] at hc
  | modifier hc => simp [hp] at hc
  | part hr hread => simp [hp,Kind.rolesRead] at hread
  | declarator _ _ hr => simp [hrole] at hr

theorem sealed_constant (hp : p.kind = .enumConstant) (hplace : ¬ ReadAsList g p)
    (hrole : c.role = some .body ∨ c.role = some .arguments) : Sealed g p c := by
  refine ⟨.constant hp hrole,fun h => ?_⟩
  cases h with
  | listed _ hlist _ _ => exact hplace hlist
  | modifier hc => simp [hp] at hc
  | part hr hread =>
    simp only [hp,Kind.rolesRead,List.mem_singleton] at hread
    simp [hr,hread] at hrole
  | declarator _ _ hr => rcases hr with hr | hr <;> simp [hr] at hrole

theorem sealed_initializer (hp : inTypeDecl g = true ∧ p.role = some .body ∨ p.kind.isTypeBody = true)
    (hmodifiers : p.kind ≠ .modifiers) (hrole : c.role = none)
    (hk : c.kind = .staticInitializer ∨ c.kind = .block) : Sealed g p c := by
  refine ⟨.initializer hp hk,fun h => ?_⟩
  cases h with
  | listed _ _ _ hlisted => rcases hk with hk | hk <;> rw [hk] at hlisted <;> cases hlisted
  | modifier hc => exact hmodifiers hc
  | part hr _ => simp [hrole] at hr
  | declarator _ _ hr => simp [hrole] at hr

end Places

mutual

theorem Recoded.refl (code : Option Kind → Node → Node → Prop) (g : Option Kind) :
    ∀ n, Recoded code g n n
  | ⟨kind, named, role, text, children⟩ =>
      .node (RecodedAll.refl code g ⟨kind,named,role,text,children⟩ children)

theorem RecodedAll.refl (code : Option Kind → Node → Node → Prop) (g : Option Kind) (p : Node) :
    ∀ cs, RecodedAll code g p cs cs
  | [] => .nil
  | c :: cs => .kept (Recoded.refl code (some p.kind) c) (RecodedAll.refl code g p cs)

end

section Toolbox

variable (text : String) (inner : List Node)

def sawNode : Node :=
  { kind := .enumConstant
    children := [nameLeaf "SAW",{ kind := .other "argument_list",role := some .arguments,text,children := inner },
      { kind := .other "class_body",role := some .body,text,children := inner }] }

def toolConstructor : Node :=
  { kind := .constructorDecl
    children := [nameLeaf "Tool",{ kind := .constructorBody,role := some .body,text,children := inner }] }

def toolNode : Node :=
  { kind := .enumDecl
    children := [nameLeaf "Tool",
      { kind := .other "enum_body",role := some .body
        children := [sawNode text inner,
          { kind := .enumBodyDecls
            children := [toolConstructor text inner,{ kind := .block,text,children := inner }] }] }] }

def sizeNode : Node :=
  { kind := .fieldDecl
    children := [{ kind := .integralType,role := some .type,text := "int" },
      { kind := .variableDeclarator,role := some .declarator
        children := [nameLeaf "size",
          { kind := .other "lambda_expression",role := some .value,text,children := inner }] }] }

def openNode : Node :=
  { kind := .methodDecl
    children := [{ kind := .voidType,role := some .type,text := "void" },nameLeaf "open",
      { kind := .block,role := some .body,text,children := inner }] }

def toolboxNode : Node :=
  { kind := .program
    children := [{ kind := .classDecl
                   children := [nameLeaf "Toolbox",
                     { kind := .other "class_body",role := some .body
                       children := [sizeNode text inner,
                         { kind := .staticInitializer,text,children := inner },openNode text inner,
                         toolNode text inner] }] }] }

end Toolbox

theorem toolboxNode_recoded (text later : String) (inner changed : List Node) :
    Recoded Sealed none (toolboxNode text inner) (toolboxNode later changed) := by
  have hname : ∀ {g : Option Kind} {name : String}, Recoded Sealed g (nameLeaf name) (nameLeaf name) :=
    fun {g name} => .refl Sealed g (nameLeaf name)
  have hsaw : Recoded Sealed (some (.other "enum_body")) (sawNode text inner) (sawNode later changed) := by
    have hplace : ¬ ReadAsList (some (.other "enum_body")) (sawNode text inner) := by
      simp [ReadAsList,inTypeDecl,inRoutine,formOf?,Kind.isRoutine]
    exact .node (.kept hname (.replaced later changed (sealed_constant rfl hplace (.inr rfl))
      (.replaced later changed (sealed_constant rfl hplace (.inl rfl)) .nil)))
  have hconstructor : Recoded Sealed (some .enumBodyDecls) (toolConstructor text inner)
      (toolConstructor later changed) :=
    .node (.kept hname (.replaced later changed (sealed_routine rfl rfl (.inr rfl)) .nil))
  have htool : Recoded Sealed (some (.other "class_body")) (toolNode text inner) (toolNode later changed) :=
    .node (.kept hname (.kept (.node (.kept hsaw (.kept (.node (.kept hconstructor
      (.replaced later changed (sealed_initializer (.inr rfl) (by simp) rfl (.inr rfl)) .nil))) .nil))) .nil))
  have hsize : Recoded Sealed (some (.other "class_body")) (sizeNode text inner) (sizeNode later changed) :=
    .node (.kept (.refl ..) (.kept (.node (.kept hname
      (.replaced later changed (sealed_value rfl rfl rfl) .nil))) .nil))
  have hopen : Recoded Sealed (some (.other "class_body")) (openNode text inner) (openNode later changed) :=
    .node (.kept (.refl ..) (.kept hname
      (.replaced later changed (sealed_routine rfl rfl (.inl rfl)) .nil)))
  exact .node (.kept (.node (.kept hname (.kept (.node (.kept hsize (.replaced later changed
    (sealed_initializer (.inl ⟨rfl,rfl⟩) (by simp) rfl (.inl rfl)) (.kept hopen (.kept htool .nil))))) .nil)))
    .nil)

theorem code_is_not_read_toolbox :
    Recoded Sealed none (toolboxNode "\x7b\x7d" []) (toolboxNode "\x7b class X \x7b\x7d \x7d" [openNode "" []]) ∧
    unitOf "Toolbox.java" (toolboxNode "\x7b class X \x7b\x7d \x7d" [openNode "" []]) =
      unitOf "Toolbox.java" (toolboxNode "\x7b\x7d" []) := by
  have h := toolboxNode_recoded "\x7b\x7d" "\x7b class X \x7b\x7d \x7d" [] [openNode "" []]
  exact ⟨h,code_is_not_read _ _ _ h⟩

def misplacedConstant (name : String) : Node :=
  { kind := .program
    children := [{ kind := .classDecl
                   children := [nameLeaf "A",
                     { kind := .enumConstant,role := some .body
                       children := [{ kind := .methodDecl,role := some .body,text := name
                                      children := [nameLeaf name] }] }] }] }

theorem code_in_misplaced_constant_is_read :
    Recoded Code none (misplacedConstant "f") (misplacedConstant "g") ∧
    unitOf "A.java" (misplacedConstant "g") ≠ unitOf "A.java" (misplacedConstant "f") := by
  refine ⟨.node (.kept (.node (.kept (.refl ..) (.kept (.node (.replaced "g" [nameLeaf "g"]
    (.constant rfl (.inl rfl)) .nil)) .nil))) .nil),fun heq => ?_⟩
  have hnames := congrArg (fun r => r.toOption.map fun u => u.types.flatMap fun d =>
    d.methods.map MethodDecl.name) heq
  exact absurd hnames (by decide)

end ClassDiagram.Java
