import ClassDiagram.Java.Source
import ClassDiagram.Proofs.Java.Pieces

/-!
The trees of sources are complete: every production of the grammar gives whole pieces, so no annotated type lacks
its type and no qualified name its last identifier. Hence what is read from the text of a source is lowered, and a
tree from elsewhere is lowered whenever it is complete in the same sense.
-/

namespace ClassDiagram.Java

open Std.Do Reader

set_option mvcgen.warning false

namespace Grammar

section Names

@[spec]
theorem extend_gives (turns : Nat) (p : Piece) (hp : p.Whole) :
    Gives Piece.Whole (qualifiedName.extend turns p) := by
  induction turns generalizing p with
  | zero => mvcgen [qualifiedName.extend]
  | succ turns ih => mvcgen [qualifiedName.extend,ih] <;> grind

@[spec]
theorem qualifiedName_gives : Gives Piece.Whole qualifiedName := by
  mvcgen [qualifiedName] <;> grind

@[spec]
theorem atAnnotType_gives : GivesAny atAnnotType := by
  mvcgen [atAnnotType] <;> grind

@[spec]
theorem annot_gives : Gives Piece.Whole annot := by
  mvcgen [annot] <;> grind

@[spec]
theorem annots_gives : Gives AllWhole annots := by
  mvcgen [annots]
  grind

@[spec]
theorem modifier_gives : Gives Piece.Whole modifier := by
  have hwords : ∀ w ∈ modifierWords, w ≠ "annotated_type" ∧ w ≠ "scoped_type_identifier" := by
    decide
  mvcgen [modifier] <;> grind [Token.Tidy,ofName_ne]

@[spec]
theorem modifierList_gives : Gives AllWhole modifierList := by
  mvcgen [modifierList] <;> grind

@[spec]
theorem brackets_gives (turns : Nat) : Gives AllWhole (dimensions.brackets turns) := by
  induction turns with
  | zero =>
    mvcgen [dimensions.brackets]
    grind
  | succ turns ih => mvcgen [dimensions.brackets,ih] <;> grind

@[spec]
theorem dimensions_gives : Gives AllWhole dimensions := by
  mvcgen [dimensions] <;> grind

end Names

section Types

@[mk_iff]
structure IsType (p : Piece) : Prop where
  whole : p.Whole
  named : p.node.named = true
  kind : p.node.kind.isType = true

theorem isAnnot_of_isType {k : Kind} (h : k.isType = true) : k.isAnnot = false := by
  cases k <;> simp_all [Kind.isType,Kind.isAnnot]

theorem primitiveKind?_type {text : String} {k : Kind} (h : primitiveKind? text = some k) :
    k.isType = true ∧ k ≠ .annotatedType ∧ k ≠ .scopedTypeIdentifier := by
  unfold primitiveKind? at h
  split at h <;> cases h <;> decide

@[grind ←]
theorem scoped_whole {ps : List Piece} {segment : Piece} (h : AllWhole (ps ++ [segment]))
    (hn : segment.node.named = true) (hk : segment.node.kind = .typeIdentifier) :
    (Piece.group .scopedTypeIdentifier (ps ++ [segment])).Whole :=
  group_whole h (by simp) fun _ => ⟨segment,by simp,hn,hk⟩

@[grind ←]
theorem annotated_whole {ps : List Piece} {p : Piece} (h : AllWhole ps) (hp : IsType p) :
    (Piece.group .annotatedType (ps ++ [p])).Whole :=
  group_whole (by simp [h,hp.whole]) (fun _ => ⟨p,by simp,hp.named,isAnnot_of_isType hp.kind⟩) (by simp)

-- The productions of types call one another with less fuel: what holds of all of them is carried at once.
structure TypesWhole (fuel : Nat) : Prop where
  simpleType : Gives IsType (simpleType fuel)
  typeTail : ∀ (generic : Bool) (p : Piece), IsType p → Gives IsType (typeTail fuel generic p)
  plainType : Gives IsType (plainType fuel)
  type : Gives Piece.Whole (type fuel)
  typeArgument : Gives Piece.Whole (typeArgument fuel)
  wildcard : Gives Piece.Whole (wildcard fuel)
  typeArguments : Gives Piece.Whole (typeArguments fuel)
  moreArguments : Gives AllWhole (moreArguments fuel)

theorem typesWhole_zero : TypesWhole 0 where
  simpleType := gives_failure
  typeTail generic p hp := by mvcgen [typeTail]
  plainType := gives_failure
  type := gives_failure
  typeArgument := gives_failure
  wildcard := gives_failure
  typeArguments := gives_failure
  moreArguments := gives_failure

variable {fuel : Nat}

theorem simpleType_gives (htail : ∀ generic p, IsType p → Gives IsType (typeTail fuel generic p)) :
    Gives IsType (simpleType (fuel + 1)) := by
  mvcgen [simpleType,htail] <;> grind [isType_iff,Piece.leaf,primitiveKind?_type,Kind.isType]

theorem typeTail_gives (htail : ∀ generic p, IsType p → Gives IsType (typeTail fuel generic p))
    (harguments : Gives Piece.Whole (typeArguments fuel)) (generic : Bool) (p : Piece) (hp : IsType p) :
    Gives IsType (typeTail (fuel + 1) generic p) := by
  mvcgen [typeTail,htail,harguments] <;> grind [isType_iff,Kind.isType]

theorem plainType_gives (hsimple : Gives IsType (simpleType fuel)) :
    Gives IsType (plainType (fuel + 1)) := by
  mvcgen [plainType,hsimple] <;> grind [isType_iff,Kind.isType]

theorem type_gives (hplain : Gives IsType (plainType fuel)) :
    Gives Piece.Whole (type (fuel + 1)) := by
  mvcgen [type,hplain] <;> grind [isType_iff]

theorem wildcard_gives (htype : Gives Piece.Whole (type fuel)) :
    Gives Piece.Whole (wildcard (fuel + 1)) := by
  mvcgen [wildcard,htype] <;> grind

theorem typeArguments_gives (hmore : Gives AllWhole (moreArguments fuel)) :
    Gives Piece.Whole (typeArguments (fuel + 1)) := by
  mvcgen [typeArguments,hmore] <;> grind

theorem moreArguments_gives (hargument : Gives Piece.Whole (typeArgument fuel))
    (hmore : Gives AllWhole (moreArguments fuel)) : Gives AllWhole (moreArguments (fuel + 1)) := by
  mvcgen [moreArguments,hargument,hmore] <;> grind

theorem typesWhole_succ (ih : TypesWhole fuel) : TypesWhole (fuel + 1) where
  simpleType := simpleType_gives ih.typeTail
  typeTail := typeTail_gives ih.typeTail ih.typeArguments
  plainType := plainType_gives ih.simpleType
  type := type_gives ih.plainType
  typeArgument := orElse_whole ih.wildcard ih.type
  wildcard := wildcard_gives ih.type
  typeArguments := typeArguments_gives ih.moreArguments
  moreArguments := moreArguments_gives ih.typeArgument ih.moreArguments

theorem typesWhole (fuel : Nat) : TypesWhole fuel := by
  induction fuel with
  | zero => exact typesWhole_zero
  | succ fuel ih => exact typesWhole_succ ih

end Types

section Headers

theorem tidy_initializerTokens {ts : List Token} (h : AllTidy ts) (turns : Nat) :
    AllTidy (initializerTokens turns ts).1 ∧ AllTidy (initializerTokens turns ts).2 := by
  rw [← allTidy_append,initializerTokens_splits]
  exact h

theorem tidy_suffix {ts rest : List Token} (h : AllTidy ts) (hr : rest <:+ ts) : AllTidy rest :=
  fun t ht => h t (hr.subset ht)

@[spec]
theorem depthBound_gives : GivesAny depthBound := by
  mvcgen [depthBound]

@[spec]
theorem aType_gives : Gives Piece.Whole aType := by
  have htype := fun fuel => (typesWhole fuel).type
  mvcgen [aType,htype]
  grind

@[spec]
theorem aPlainType_gives : Gives Piece.Whole aPlainType := by
  have hplain := fun fuel => (typesWhole fuel).plainType
  mvcgen [aPlainType,hplain] <;> grind [isType_iff]

@[spec]
theorem typeList_gives : Gives Piece.Whole typeList := by
  mvcgen [typeList] <;> grind

@[spec]
theorem furtherBounds_gives (turns : Nat) : Gives AllWhole (typeParameter.furtherBounds turns) := by
  induction turns with
  | zero =>
    mvcgen [typeParameter.furtherBounds]
    grind
  | succ turns ih => mvcgen [typeParameter.furtherBounds,ih] <;> grind

theorem typeBound_gives : Gives Piece.Whole (do
    let extends_ ← mark "extends"
    let first ← aType
    let more ← typeParameter.furtherBounds (← budget)
    pure (.group (.other "type_bound") (extends_ :: first :: more))) := by
  mvcgen <;> grind

@[spec]
theorem typeParameter_gives : Gives Piece.Whole typeParameter := by
  have hbound := atMostOnce_gives typeBound_gives
  mvcgen [typeParameter,hbound] <;> grind

@[spec]
theorem typeParameters_gives : Gives Piece.Whole typeParameters := by
  mvcgen [typeParameters] <;> grind

@[spec]
theorem someTypeParameters_gives : Gives AllWhole someTypeParameters := by
  mvcgen [someTypeParameters] <;> grind

@[spec]
theorem declaredName_gives : Gives Piece.Whole declaredName := by
  mvcgen [declaredName]
  grind

@[spec]
theorem dimensionsInRole_gives : Gives AllWhole dimensionsInRole := by
  mvcgen [dimensionsInRole]
  grind

@[spec]
theorem outerNames_gives (turns : Nat) : Gives AllWhole (receiverParameter.outerNames turns) := by
  induction turns with
  | zero =>
    mvcgen [receiverParameter.outerNames]
    grind
  | succ turns ih => mvcgen [receiverParameter.outerNames,ih] <;> grind

@[spec]
theorem receiverParameter_gives : Gives Piece.Whole receiverParameter := by
  mvcgen [receiverParameter] <;> grind

@[spec]
theorem formalParameter_gives : Gives Piece.Whole formalParameter := by
  mvcgen [formalParameter] <;> grind

@[spec]
theorem spreadParameter_gives : Gives Piece.Whole spreadParameter := by
  mvcgen [spreadParameter] <;> grind

@[spec]
theorem parameter_gives : Gives Piece.Whole parameter := by
  mvcgen [parameter] <;> grind

@[spec]
theorem parameters_gives (turns : Nat) : Gives AllWhole (parameters turns) := by
  induction turns with
  | zero =>
    mvcgen [parameters]
    grind
  | succ turns ih => mvcgen [parameters,ih] <;> simp_all +zetaDelta [Stream.Tidy,tidy_initializerTokens]

@[spec]
theorem formalParameters_gives : Gives Piece.Whole formalParameters := by
  mvcgen [formalParameters] <;> grind

@[spec]
theorem clause_gives (introducer : String) (k : Kind) {types : Reader Piece} (htypes : Gives Piece.Whole types)
    (ha : introducer ≠ "annotated_type") (hs : introducer ≠ "scoped_type_identifier")
    (hka : k ≠ .annotatedType) (hks : k ≠ .scopedTypeIdentifier) :
    Gives AllWhole (clause introducer k types) := by
  mvcgen [clause,htypes] <;> grind

@[spec]
theorem throwsClause_gives : Gives AllWhole throwsClause := by
  mvcgen [throwsClause] <;> grind

end Headers

section Members

@[spec]
theorem variableDeclarator_gives : Gives Piece.Whole variableDeclarator := by
  mvcgen [variableDeclarator] <;> grind [tidy_initializerTokens]

@[spec]
theorem fieldRest_gives (k : Kind) (before : List Piece) (hb : AllWhole before) (ha : k ≠ .annotatedType)
    (hs : k ≠ .scopedTypeIdentifier) : Gives Piece.Whole (fieldRest k before) := by
  mvcgen [fieldRest] <;> grind

@[spec]
theorem methodBody_gives (k : Kind) (ha : k ≠ .annotatedType)
    (hs : k ≠ .scopedTypeIdentifier) : Gives AllWhole (methodBody k) := by
  mvcgen [methodBody] <;> grind

@[spec]
theorem methodRest_gives (before : List Piece) (hb : AllWhole before) :
    Gives Piece.Whole (methodRest before) := by
  mvcgen [methodRest] <;> simp_all [plainGroup_whole]

@[spec]
theorem constructorRest_gives (before : List Piece) (hb : AllWhole before) :
    Gives Piece.Whole (constructorRest before) := by
  mvcgen [constructorRest] <;> grind

@[spec]
theorem compactConstructorRest_gives (before : List Piece) (hb : AllWhole before) :
    Gives Piece.Whole (compactConstructorRest before) := by
  mvcgen [compactConstructorRest] <;> grind

@[spec]
theorem annotTypeRest_gives (before : List Piece) (hb : AllWhole before) :
    Gives Piece.Whole (annotTypeRest before) := by
  mvcgen [annotTypeRest] <;> simp_all [plainGroup_whole]

@[spec]
theorem enumConstant_gives : Gives Piece.Whole enumConstant := by
  mvcgen [enumConstant] <;> grind

@[spec]
theorem dropStatement_gives : GivesAny dropStatement := by
  mvcgen [dropStatement] <;> grind [tidy_suffix,statementTokens_suffix,List.drop_suffix]

@[spec]
theorem dropToBody_gives : GivesAny dropToBody := by
  mvcgen [dropToBody] <;> grind [tidy_suffix,List.dropWhile_suffix]

end Members

section Declarations

structure DeclarationsWhole (fuel : Nat) : Prop where
  typeRest : ∀ before, AllWhole before → Gives Piece.Whole (typeRest fuel before)
  typeBody : ∀ inInterface, Gives AllWhole (typeBody fuel inInterface)
  enumBody : Gives AllWhole (enumBody fuel)
  members : ∀ inInterface, Gives AllWhole (members fuel inInterface)
  member : ∀ inInterface, Gives Piece.Whole (member fuel inInterface)

theorem declarationsWhole_zero : DeclarationsWhole 0 where
  typeRest before hb := gives_failure
  typeBody inInterface := gives_failure
  enumBody := gives_failure
  members inInterface := by
    mvcgen [members]
    grind
  member inInterface := gives_failure

variable {fuel : Nat}

theorem typeRest_gives (hbody : ∀ inInterface, Gives AllWhole (typeBody fuel inInterface))
    (henum : Gives AllWhole (enumBody fuel)) (before : List Piece) (hb : AllWhole before) :
    Gives Piece.Whole (typeRest (fuel + 1) before) := by
  mvcgen [typeRest,hbody,henum] <;> simp_all [plainGroup_whole]

theorem typeBody_gives (hmembers : ∀ inInterface, Gives AllWhole (members fuel inInterface))
    (inInterface : Bool) : Gives AllWhole (typeBody (fuel + 1) inInterface) := by
  mvcgen [typeBody,hmembers] <;> grind

theorem enumBody_gives (hmembers : ∀ inInterface, Gives AllWhole (members fuel inInterface)) :
    Gives AllWhole (enumBody (fuel + 1)) := by
  mvcgen [enumBody,hmembers] <;> simp_all [plainGroup_whole]

theorem members_gives (hmembers : ∀ inInterface, Gives AllWhole (members fuel inInterface))
    (hmember : ∀ inInterface, Gives Piece.Whole (member fuel inInterface))
    (inInterface : Bool) : Gives AllWhole (members (fuel + 1) inInterface) := by
  mvcgen [members,hmember,hmembers] <;> grind

theorem member_gives (htype : ∀ before, AllWhole before → Gives Piece.Whole (typeRest fuel before))
    (inInterface : Bool) : Gives Piece.Whole (member (fuel + 1) inInterface) := by
  mvcgen [member,htype] <;> cases inInterface <;> simp_all +zetaDelta [plainGroup_whole]

theorem declarationsWhole_succ (ih : DeclarationsWhole fuel) :
    DeclarationsWhole (fuel + 1) where
  typeRest := typeRest_gives ih.typeBody ih.enumBody
  typeBody := typeBody_gives ih.members
  enumBody := enumBody_gives ih.members
  members := members_gives ih.members ih.member
  member := member_gives ih.typeRest

theorem declarationsWhole (fuel : Nat) : DeclarationsWhole fuel := by
  induction fuel with
  | zero => exact declarationsWhole_zero
  | succ fuel ih => exact declarationsWhole_succ ih

end Declarations

section Sources

@[spec]
theorem packageDecl_gives : Gives Piece.Whole packageDecl := by
  mvcgen [packageDecl] <;> grind

@[spec]
theorem importDecl_gives : Gives Piece.Whole importDecl := by
  mvcgen [importDecl] <;> simp_all [plainGroup_whole,leaf_whole]

@[spec]
theorem moduleDecl_gives : Gives Piece.Whole moduleDecl := by
  mvcgen [moduleDecl] <;> simp_all [plainGroup_whole]

@[spec]
theorem topType_gives : Gives Piece.Whole topType := by
  have htype := fun fuel => (declarationsWhole fuel).typeRest
  mvcgen [topType,htype] <;> grind

@[spec]
theorem statement_gives : Gives Piece.Whole statement := by
  -- `mvcgen` does not split a match on two terms at once, so the run is opened.
  rw [gives_iff]
  intro s hs p s' h
  rw [statement] at h
  simp only [StateT.run_bind,StateT.run_get,Option.pure_def,Option.bind_eq_bind,Option.bind_some] at h
  split at h
  · cases h
  · rename_i rest hrest _
    cases h
    exact ⟨tidy_suffix hs (statementTokens_suffix hrest),
      sealed_whole (fun t ht => hs t (List.mem_of_mem_take ht)) (by simp) (by simp)⟩
  · cases h

@[spec]
theorem topPart_gives : Gives AllWhole topPart := by
  mvcgen [topPart] <;> grind

@[spec]
theorem parts_gives (turns : Nat) : Gives AllWhole (parts turns) := by
  induction turns with
  | zero =>
    mvcgen [parts]
    grind
  | succ turns ih => mvcgen [parts,ih] <;> grind

end Sources

end Grammar

theorem parse_whole (source : List Char) : (parse source).1.Throughout Node.Complete := by
  have hparts := gives_iff.mp (Grammar.parts_gives ((Token.scan source).length + 1))
    { tokens := Token.scan source } (tidy_scan source)
  rw [parse]
  split
  · exact .intro (Node.complete_of_kind (by simp) (by simp)) (by simp)
  · rename_i ps s hrun
    exact (plainGroup_whole (hparts ps s hrun).2 (by simp) (by simp)).node

theorem lowering_is_safe (path : String) (root : Node) :
    ((∃ unit, unitOf path root = .ok unit) ∨ unitOf path root = .error .missingChild) ∧
    (root.Throughout Node.Complete → ∃ unit, unitOf path root = .ok unit) ∧
    ∀ source, (parse source).1.Throughout Node.Complete := by
  refine ⟨?_,fun h => (unitOf_failsOnly (Node.excused_of_complete h) path).succeeds,parse_whole⟩
  have herror : FailsOnly (· = .missingChild) (unitOf path root) :=
    unitOf_failsOnly (missing_excused root) path
  cases hunit : unitOf path root with
  | ok unit => exact .inl ⟨unit,rfl⟩
  | error e => exact .inr (by rw [herror e hunit])

section Ruins

-- A record without a name, whose body is a wildcard: no source has this tree.
def ruinNode (annotated : List Node) : Node :=
  { kind := .program
    children := [{ kind := .recordDecl
                   children := [{ kind := .formalParameters
                                  children := [{ kind := .formalParameter
                                                 children := [{ kind := .annotatedType,role := some .type
                                                                children := annotated }] }] },
                                { kind := .formalParameters },
                                { kind := .superInterfaces
                                  children := [{ kind := .scopedTypeIdentifier
                                                 children := [{ kind := .typeIdentifier
                                                                text := "Stone" }] }] },
                                { kind := .wildcard,role := some .body
                                  children := [{ kind := .fieldDecl },
                                               { kind := .methodDecl
                                                 children := [{ kind := .arrayType
                                                                role := some .type }] }] }] }] }

def lostComment : Node := { kind := .lineComment,text := "// lost" }

def wallSource : List Char := "class Wall { @Old java.util.List<@Worn Stone[]> stones; }".toList

theorem lowering_is_safe_ruins :
    (ruinNode [lostComment]).Throughout Node.Complete ∧
    (∃ unit, unitOf "Ruin.java" (ruinNode [lostComment]) = .ok unit) ∧
    unitOf "Ruin.java" (ruinNode []) = .error .missingChild ∧
    (parse wallSource).2 = false ∧ (parse wallSource).1.Throughout Node.Complete := by
  have hruin : (ruinNode [lostComment]).Throughout Node.Complete := by decide
  have hwall : (parse wallSource).2 = false := by decide +kernel
  obtain ⟨_,hlowered,hparsed⟩ := lowering_is_safe "Ruin.java" (ruinNode [lostComment])
  exact ⟨hruin,hlowered hruin,rfl,hwall,hparsed wallSource⟩

end Ruins

end ClassDiagram.Java
