import ClassDiagram.Proofs.Diagram.Erasure
import ClassDiagram.Proofs.Java.Comments
import ClassDiagram.Proofs.Java.WrittenType

/-!
The names of packages and of imported types, with blanks around their dots. A name is kept as it is laid
out: it is in canonical form exactly when there are no blanks in it. An import then stands for its last
identifier only if no blank comes after the last dot, and what it stands for is the name as laid out.
-/

namespace ClassDiagram

def SourceUnit.Resolves (u : SourceUnit) (name qualified : String) : Prop :=
  ∀ (o : DiagramOptions) (package : Option String), ∀ origin ∈ u.origins o,
    origin.baseName? = some name →
    origin.link o (u.packageShown o package) u.imports ∈ (u.document o package).relationships ∧
      (origin.link o (u.packageShown o package) u.imports).source =
        (if o.showPackage then qualified else name) ++ origin.suffix

theorem SourceUnit.resolves_of_lastImport? {u : SourceUnit} {name qualified : String}
    (h : lastImport? u.imports name = some qualified) : u.Resolves name qualified := by
  intro o package origin hmem hname
  refine ⟨?_,?_⟩
  · rw [u.relationships_eq_map]
    exact List.mem_map_of_mem hmem
  · cases origin with
    | nesting path => cases hname
    | reference c path t => exact linkSource_imported o _ hname h

theorem Origin.link_of_lastImport? {imports others : List Import} {origin : Origin} {name : String}
    (hname : origin.baseName? = some name) (h : lastImport? imports name = lastImport? others name)
    (o : DiagramOptions) (package : String) :
    origin.link o package imports = origin.link o package others := by
  refine link_of_lookup (fun other hother => ?_) o package
  obtain rfl : other = name := Option.some.inj (hother.symm.trans hname)
  exact h

namespace Java

structure Gap where
  text : String
  blank : text.toList.all Text.isBlank = true

inductive DottedName where
  | single (name : Identifier)
  | dotted (scope : DottedName) (before after : Gap) (name : Identifier)

theorem Identifier.solid (name : Identifier) : ∀ c ∈ name.text.toList, Text.isBlank c = false :=
  fun c hc => (name.chars c hc).2

theorem Identifier.dotless (name : Identifier) : '.' ∉ name.text.toList := fun hdot =>
  absurd (name.chars '.' hdot).1 (by decide)

namespace Gap

theorem all_blank (g : Gap) : ∀ c ∈ g.text.toList, Text.isBlank c = true :=
  List.all_eq_true.mp g.blank

theorem dotless (g : Gap) : '.' ∉ g.text.toList := by
  intro hdot
  exact absurd (g.all_blank '.' hdot) (by decide)

theorem filter_solid (g : Gap) : g.text.toList.filter (fun c => !Text.isBlank c) = [] :=
  List.filter_eq_nil_iff.mpr fun c hc => by simp [g.all_blank c hc]

theorem eq_empty_of_solid {g : Gap} (h : ∀ c ∈ g.text.toList, Text.isBlank c = false) :
    g.text = "" := by
  have hnil : g.text.toList = [] := by
    refine List.eq_nil_iff_forall_not_mem.mpr fun c hc => ?_
    have hblank := g.all_blank c hc
    rw [h c hc] at hblank
    cases hblank
  simpa using hnil

end Gap

namespace DottedName

def identifiers : DottedName → List Identifier
  | single name => [name]
  | dotted scope _ _ name => scope.identifiers ++ [name]

def canonical (d : DottedName) : String := ".".intercalate (d.identifiers.map Identifier.text)

def layout : DottedName → String
  | single name => name.text
  | dotted scope before after name =>
      scope.layout ++ before.text ++ "." ++ (after.text ++ name.text)

def last : DottedName → Identifier
  | single name => name
  | dotted _ _ _ name => name

def lastGap : DottedName → String
  | single _ => ""
  | dotted _ _ after _ => after.text

def Tight : DottedName → Prop
  | single _ => True
  | dotted scope before after _ => scope.Tight ∧ before.text = "" ∧ after.text = ""

theorem identifiers_ne_nil (d : DottedName) : d.identifiers ≠ [] := by
  cases d <;> simp [identifiers]

theorem canonical_dotted (scope : DottedName) (before after : Gap) (name : Identifier) :
    (dotted scope before after name).canonical = scope.canonical ++ "." ++ name.text := by
  have hne : scope.identifiers.map Identifier.text ≠ [] := by simpa using scope.identifiers_ne_nil
  rw [canonical,identifiers,List.map_append,String.intercalate_append_of_ne_nil hne (by simp)]
  simp [canonical]

theorem filter_layout (d : DottedName) :
    d.layout.toList.filter (fun c => !Text.isBlank c) = d.canonical.toList := by
  have hname : ∀ name : Identifier,
      name.text.toList.filter (fun c => !Text.isBlank c) = name.text.toList := fun name =>
    List.filter_eq_self.mpr fun c hc => by simp [name.solid c hc]
  induction d with
  | single name => simpa [layout,canonical,identifiers] using hname name
  | dotted scope before after name ih =>
    have hdot : ".".toList.filter (fun c => !Text.isBlank c) = ".".toList := by decide
    simp only [layout,canonical_dotted,String.toList_append,List.filter_append,ih,
      before.filter_solid,after.filter_solid,hname,hdot,List.append_nil,List.nil_append]

theorem tight_of_solid {d : DottedName} (h : ∀ c ∈ d.layout.toList, Text.isBlank c = false) :
    d.Tight := by
  induction d with
  | single name => trivial
  | dotted scope before after name ih =>
    simp only [layout,String.toList_append,List.mem_append] at h
    exact ⟨ih fun c hc => h c (by simp [hc]),Gap.eq_empty_of_solid fun c hc => h c (by simp [hc]),
      Gap.eq_empty_of_solid fun c hc => h c (by simp [hc])⟩

theorem layout_eq_canonical_iff (d : DottedName) : d.layout = d.canonical ↔ d.Tight := by
  constructor
  · intro heq
    refine tight_of_solid fun c hc => ?_
    -- The canonical form holds what is left of the layout without its blanks.
    rw [heq,← d.filter_layout] at hc
    simpa using (List.mem_filter.mp hc).2
  · intro htight
    induction d with
    | single name => simp [layout,canonical,identifiers]
    | dotted scope before after name ih =>
      obtain ⟨hscope,hbefore,hafter⟩ := htight
      rw [layout,canonical_dotted,ih hscope,hbefore,hafter]
      simp

theorem Tight.lastGap {d : DottedName} (h : d.Tight) : d.lastGap = "" := by
  cases d with
  | single name => rfl
  | dotted scope before after name => exact h.2.2

theorem lastGap_solid {d : DottedName} (h : ∀ c ∈ d.lastGap.toList, Text.isBlank c = false) :
    d.lastGap = "" := by
  cases d with
  | single name => rfl
  | dotted scope before after name => exact Gap.eq_empty_of_solid h

theorem lastSegment_layout (d : DottedName) :
    Text.lastSegment d.layout = d.lastGap ++ d.last.text := by
  cases d with
  | single name => simpa [layout,lastGap,last] using Text.lastSegment_of_dotless name.dotless
  | dotted scope before after name =>
    refine Text.lastSegment_append _ ?_
    rw [String.toList_append,List.mem_append]
    exact not_or.mpr ⟨after.dotless,name.dotless⟩

-- What is bound to a name with blanks before it is not bound to the name.
theorem lastGap_append_eq_iff (d : DottedName) (name : Identifier) :
    d.lastGap ++ d.last.text = name.text ↔ d.lastGap = "" ∧ d.last = name := by
  constructor
  · intro heq
    have hgap : d.lastGap = "" := lastGap_solid fun c hc => by
      refine name.solid c ?_
      rw [← heq,String.toList_append]
      exact List.mem_append_left _ hc
    refine ⟨hgap,?_⟩
    rw [hgap,String.empty_append] at heq
    exact Identifier.eq_of_text heq
  · rintro ⟨hgap,rfl⟩
    rw [hgap,String.empty_append]

def imported (d : DottedName) (isStatic isWildcard : Bool) : Import :=
  { name := if isWildcard then "" else d.lastGap ++ d.last.text,qualifiedName := d.layout
    isStatic,isWildcard }

def canonicalImport (d : DottedName) (isStatic isWildcard : Bool) : Import :=
  { name := if isWildcard then "" else d.last.text,qualifiedName := d.canonical,isStatic,isWildcard }

theorem imported_eq_iff (d : DottedName) (isStatic isWildcard : Bool) :
    d.imported isStatic isWildcard = d.canonicalImport isStatic isWildcard ↔ d.Tight := by
  rw [← d.layout_eq_canonical_iff]
  constructor
  · intro heq
    exact congrArg Import.qualifiedName heq
  · intro heq
    have htight := d.layout_eq_canonical_iff.mp heq
    rw [imported,canonicalImport,heq,htight.lastGap,String.empty_append]

end DottedName

inductive DottedNode : Node → DottedName → Prop
  | single (role : Option Role) (name : Identifier) :
      DottedNode { kind := .identifier,role,text := name.text } (.single name)
  | dotted (role lastRole : Option Role) (before after : Gap) (name : Identifier) {left : Node}
      {scope : DottedName} : DottedNode left scope →
      DottedNode
        { kind := .scopedIdentifier,role,text := (DottedName.dotted scope before after name).layout
          children := [left,mark ".",{ kind := .identifier,role := lastRole,text := name.text }] }
        (.dotted scope before after name)

def asterisk : Node := { kind := .asterisk,text := "*" }

def importMarks (isStatic : Bool) : List Node :=
  mark "import" :: if isStatic then [mark "static"] else []

def closingMarks (isWildcard : Bool) : List Node :=
  (if isWildcard then [mark ".",asterisk] else []) ++ [mark ";"]

-- Comments may stand anywhere between the parts of a declaration.
def PackageNode (n : Node) (d : DottedName) : Prop :=
  n.kind = .packageDecl ∧ ∃ annots name, Annotations annots ∧ DottedNode name d ∧
    n.uncommented.children = annots ++ [mark "package",name,mark ";"]

def ImportNode (n : Node) (d : DottedName) (isStatic isWildcard : Bool) : Prop :=
  n.kind = .importDecl ∧ ∃ name, DottedNode name d ∧
    n.uncommented.children = importMarks isStatic ++ name :: closingMarks isWildcard

section Readings

variable {n name : Node} {d : DottedName}

theorem DottedNode.text_eq (h : DottedNode name d) : name.text = d.layout := by
  cases h <;> rfl

theorem DottedNode.named (h : DottedNode name d) : name.named = true := by
  cases h <;> rfl

theorem DottedNode.isName (h : DottedNode name d) : name.kind.isName = true := by
  cases h <;> rfl

theorem nameNode?_of_children {front back : List Node} (hname : DottedNode name d)
    (hfront : ∀ c ∈ front, c.kind.isName = false) (h : n.children = front ++ name :: back) :
    nameNode? n = some name := by
  have hnone : (front.filter (·.named)).find? (·.kind.isName) = none :=
    List.find?_eq_none.mpr fun c hc => by simp [hfront c (List.mem_filter.mp hc).1]
  rw [nameNode?,Node.namedChildren,h,List.filter_append,List.find?_append,hnone,
    List.filter_cons_of_pos hname.named]
  simp [hname.isName]

theorem PackageNode.name_text (h : PackageNode n d) :
    (nameNode? n).map Node.text = some d.layout := by
  obtain ⟨_,annots,name,hannots,hname,hchildren⟩ := h
  have hfront : ∀ c ∈ annots ++ [mark "package"], c.kind.isName = false := by
    intro c hc
    rcases List.mem_append.mp hc with hc | hc
    · have hannot := (hannots c hc).2
      cases hk : c.kind <;> simp_all [Kind.isAnnot,Kind.isName]
    · rw [List.mem_singleton.mp hc]
      rfl
  have hsplit : n.uncommented.children = (annots ++ [mark "package"]) ++ name :: [mark ";"] := by
    rw [hchildren,List.append_assoc]
    rfl
  have hfound := nameNode?_of_children hname hfront hsplit
  rw [nameNode?_uncommented] at hfound
  have htext := congrArg (Option.map Node.text) hfound
  rw [Option.map_map,Option.map_some,hname.text_eq] at htext
  simpa [Function.comp_def] using htext

theorem ImportNode.importOf?_eq {isStatic isWildcard : Bool} (h : ImportNode n d isStatic isWildcard) :
    importOf? n = some (d.imported isStatic isWildcard) := by
  obtain ⟨_,name,hname,hchildren⟩ := h
  have hfront : ∀ c ∈ importMarks isStatic, c.kind.isName = false := by
    cases isStatic <;> decide
  have hfound := nameNode?_of_children hname hfront hchildren
  have hkind : name.kind ≠ .asterisk ∧ name.kind ≠ .staticWord := by
    cases hname <;> simp
  have hwildcard : n.uncommented.children.any (·.kind = .asterisk) = isWildcard := by
    rw [hchildren,List.any_append,List.any_cons,decide_eq_false hkind.1]
    cases isStatic <;> cases isWildcard <;> decide
  have hstatic : n.uncommented.children.any (·.kind = .staticWord) = isStatic := by
    rw [hchildren,List.any_append,List.any_cons,decide_eq_false hkind.2]
    cases isStatic <;> cases isWildcard <;> decide
  rw [← importOf?_uncommented,importOf?,hfound,hwildcard,hstatic,Option.map_some,hname.text_eq,
    d.lastSegment_layout]
  rfl

end Readings

section Units

variable {path : String} {root : Node} {unit : SourceUnit}

theorem unitOf_names (h : unitOf path root = .ok unit) :
    unit.package = packageOf root ∧ unit.imports = importsOf root := by
  rw [unitOf_eq] at h
  simp only [bind_eq_ok,pure_eq_ok] at h
  obtain ⟨types,_,rfl⟩ := h
  exact ⟨rfl,rfl⟩

variable {n : Node} {d : DottedName} {front back : List Node}

theorem packageOf_split (hroot : root.namedChildren = front ++ n :: back) (hn : PackageNode n d)
    (hback : ∀ m ∈ back, m.kind ≠ .packageDecl) : packageOf root = d.layout := by
  obtain ⟨name,hname,htext⟩ := Option.map_eq_some_iff.mp hn.name_text
  have hnone : back.filter (·.kind = .packageDecl) = [] :=
    List.filter_eq_nil_iff.mpr fun m hm => by simp [hback m hm]
  rw [packageOf,hroot,List.filter_append,List.filter_cons_of_pos (by simp [hn.1]),hnone,
    List.filterMap_append]
  simp [hname,htext]

theorem importsOf_split {isStatic isWildcard : Bool} (hroot : root.namedChildren = front ++ n :: back)
    (hn : ImportNode n d isStatic isWildcard) :
    importsOf root = (front.filter (·.kind = .importDecl)).filterMap importOf? ++
      d.imported isStatic isWildcard :: (back.filter (·.kind = .importDecl)).filterMap importOf? := by
  rw [importsOf,hroot,List.filter_append,List.filter_cons_of_pos (by simp [hn.1]),
    List.filterMap_append,List.filterMap_cons_some hn.importOf?_eq]

theorem lastImport?_imported {isStatic : Bool} (hgap : d.lastGap = "") (earlier : List Import)
    {later : List Import} (hlater : ∀ i ∈ later, i.isWildcard = false → i.name ≠ d.last.text) :
    lastImport? (earlier ++ d.imported isStatic false :: later) d.last.text = some d.layout := by
  have hname : d.last.text = (d.imported isStatic false).name :=
    (d.lastGap_append_eq_iff d.last).mpr ⟨hgap,rfl⟩ |>.symm
  rw [List.append_cons,lastImport?_append_of_unbound hlater,lastImport?_append,
    if_pos ⟨rfl,hname⟩]
  rfl

theorem lastImport?_passes {isStatic isWildcard : Bool} (hgap : d.lastGap ≠ "")
    (earlier later : List Import) :
    lastImport? (earlier ++ d.imported isStatic isWildcard :: later) d.last.text =
      lastImport? (earlier ++ later) d.last.text := by
  refine lastImport?_insert (fun hw heq => ?_) earlier later
  have hwildcard : isWildcard = false := hw
  rw [hwildcard] at heq
  exact hgap ((d.lastGap_append_eq_iff d.last).mp heq).1

theorem dotted_names_keep_their_layout (hunit : unitOf path root = .ok unit)
    (hroot : root.namedChildren = front ++ n :: back) :
    (PackageNode n d → (∀ m ∈ back, m.kind ≠ .packageDecl) →
      unit.package = d.layout ∧ (unit.package = d.canonical ↔ d.Tight)) ∧
    ∀ isStatic isWildcard, ImportNode n d isStatic isWildcard →
      (d.imported isStatic isWildcard = d.canonicalImport isStatic isWildcard ↔ d.Tight) ∧
      ∃ earlier later, unit.imports = earlier ++ d.imported isStatic isWildcard :: later ∧
        later = (back.filter (·.kind = .importDecl)).filterMap importOf? ∧
        (isWildcard = false → d.lastGap = "" →
          (∀ i ∈ later, i.isWildcard = false → i.name ≠ d.last.text) →
          unit.Resolves d.last.text d.layout) ∧
        (d.lastGap ≠ "" → ∀ o package (origin : Origin), origin.baseName? = some d.last.text →
          origin.link o package unit.imports = origin.link o package (earlier ++ later)) := by
  obtain ⟨hpackage,himports⟩ := unitOf_names hunit
  refine ⟨fun hn hback => ?_,fun isStatic isWildcard hn => ?_⟩
  · have hlayout := hpackage.trans (packageOf_split hroot hn hback)
    refine ⟨hlayout,?_⟩
    rw [hlayout]
    exact d.layout_eq_canonical_iff
  · rw [importsOf_split hroot hn] at himports
    refine ⟨d.imported_eq_iff isStatic isWildcard,_,_,himports,rfl,?_,?_⟩
    · intro hwildcard hgap hlater
      refine SourceUnit.resolves_of_lastImport? ?_
      rw [himports,hwildcard]
      exact lastImport?_imported hgap _ hlater
    · intro hgap o package origin hname
      refine Origin.link_of_lastImport? hname ?_ o package
      rw [himports]
      exact lastImport?_passes hgap _ _

end Units

def DottedName.node : DottedName → Node
  | .single name => { kind := .identifier,text := name.text }
  | .dotted scope before after name =>
      { kind := .scopedIdentifier,text := (DottedName.dotted scope before after name).layout
        children := [scope.node,mark ".",{ kind := .identifier,text := name.text }] }

theorem DottedName.node_written (d : DottedName) : DottedNode d.node d := by
  induction d with
  | single name => exact .single none name
  | dotted scope before after name ih => exact .dotted none none before after name ih

def noGap : Gap := ⟨"",by decide⟩

def space : Gap := ⟨" ",by decide⟩

def exampleName : DottedName :=
  .dotted (.single ⟨"org",by decide⟩) space space ⟨"example",by decide⟩

def utilName (g : Gap) (name : Identifier) : DottedName :=
  .dotted (.dotted (.single ⟨"java",by decide⟩) g g ⟨"util",by decide⟩) g g name

def listName (g : Gap) : DottedName := utilName g listIdentifier

def mapName : DottedName := utilName noGap mapIdentifier

def packageNode (d : DottedName) : Node :=
  { kind := .packageDecl,children := [nonNull,mark "package",d.node,mark ";"] }

def importNode (comments : List Node) (d : DottedName) (isStatic isWildcard : Bool) : Node :=
  { kind := .importDecl
    children := importMarks isStatic ++ comments ++ d.node :: closingMarks isWildcard }

def bookcaseClass : Node :=
  { kind := .classDecl
    children := [{ kind := .identifier,role := some .name,text := "Bookcase" },
      { kind := .other "class_body",role := some .body
        children := [{ kind := .fieldDecl
                       children := [identifierNode (some .type) listIdentifier,
                         { kind := .variableDeclarator,role := some .declarator
                           children := [{ kind := .identifier,role := some .name
                                          text := "books" }] }] }] }] }

def listImport : Node :=
  importNode [{ kind := .blockComment,text := "/* shelves */" }] (listName noGap) false false

def bookcase : Node :=
  { kind := .program
    children := [packageNode exampleName,listImport,importNode [] mapName true true,bookcaseClass] }

theorem dotted_names_keep_their_layout_bookcase :
    PackageNode (packageNode exampleName) exampleName ∧
    ImportNode listImport (listName noGap) false false ∧
    ∃ unit, unitOf "Bookcase.java" bookcase = .ok unit ∧
      unit.package = "org . example" ∧ unit.package ≠ exampleName.canonical ∧
      unit.imports = [⟨"List","java.util.List",false,false⟩,⟨"","java.util.Map",true,true⟩] ∧
      unit.Resolves "List" (listName noGap).canonical ∧
      (unit.document {} none).relationships =
        [⟨.composition,"java.util.List","org . example.Bookcase"⟩] := by
  have hpackage : PackageNode (packageNode exampleName) exampleName :=
    ⟨rfl,[nonNull],exampleName.node,by simp [Annotations,nonNull,Kind.isAnnot],
      exampleName.node_written,rfl⟩
  have himport : ImportNode listImport (listName noGap) false false :=
    ⟨rfl,(listName noGap).node,(listName noGap).node_written,rfl⟩
  have hspaced : ¬ exampleName.Tight := fun h => absurd h.2.1 (by decide)
  have htight : (listName noGap).Tight := ⟨⟨trivial,rfl,rfl⟩,rfl,rfl⟩
  have hunit : unitOf "Bookcase.java" bookcase = .ok _ := rfl
  have hfirst : bookcase.namedChildren = [] ++ packageNode exampleName :: bookcase.children.tail := rfl
  have hsecond : bookcase.namedChildren = [packageNode exampleName] ++
      listImport :: [importNode [] mapName true true,bookcaseClass] := rfl
  obtain ⟨hdeclares,_⟩ := dotted_names_keep_their_layout (d := exampleName) hunit hfirst
  obtain ⟨hlayout,hcanonical⟩ := hdeclares hpackage (by decide)
  obtain ⟨_,himports⟩ := dotted_names_keep_their_layout (d := listName noGap) hunit hsecond
  obtain ⟨_,_,_,_,hlater,hresolves,_⟩ := himports false false himport
  refine ⟨hpackage,himport,_,hunit,hlayout,fun heq => hspaced (hcanonical.mp heq),rfl,?_,rfl⟩
  rw [← (listName noGap).layout_eq_canonical_iff.mpr htight]
  exact hresolves rfl htight.lastGap (by rw [hlater]; decide)

def spacedBookcase : Node :=
  { kind := .program,children := [importNode [] (listName space) false false,bookcaseClass] }

theorem spaced_import_is_passed_over :
    ImportNode (importNode [] (listName space) false false) (listName space) false false ∧
    (listName space).identifiers.map Identifier.text = ["java","util","List"] ∧
    (listName space).canonical = "java.util.List" ∧
    ∃ unit, unitOf "Bookcase.java" spacedBookcase = .ok unit ∧
      unit.imports = [⟨" List","java . util . List",false,false⟩] ∧
      unit.imports ≠ [(listName space).canonicalImport false false] ∧
      (unit.document {} none).relationships = [⟨.composition,"List","Bookcase"⟩] ∧
      ¬ unit.Resolves "List" (listName space).canonical := by
  refine ⟨⟨rfl,(listName space).node,(listName space).node_written,rfl⟩,rfl,rfl,_,rfl,rfl,by decide,rfl,
    fun hresolves => ?_⟩
  obtain ⟨_,hsource⟩ := hresolves {} none
    (.reference .composition "Bookcase" { text := "List",baseName := some "List" })
    List.mem_cons_self rfl
  exact absurd hsource (by decide)

end Java

end ClassDiagram
