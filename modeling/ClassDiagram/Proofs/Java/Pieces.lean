import ClassDiagram.Java.Reader
import ClassDiagram.Proofs.Java.Complete
import Mathlib

/-!
Pieces of complete trees. A reader that is given tokens with complete comments leaves such tokens, and gives
pieces that are complete all through; the means by which readers are made keep this up.
-/

namespace ClassDiagram.Java

open Std.Do

set_option mvcgen.warning false

section Tokens

theorem Node.complete_of_kind {n : Node} (ha : n.kind ≠ .annotatedType)
    (hs : n.kind ≠ .scopedTypeIdentifier) : n.Complete :=
  ⟨fun h => absurd h ha,fun h => absurd h hs⟩

def Token.Tidy (t : Token) : Prop := ∀ c ∈ t.comments, c.Throughout Node.Complete

def AllTidy (ts : List Token) : Prop := ∀ t ∈ ts, t.Tidy

@[grind =]
theorem allTidy_nil : AllTidy [] ↔ True := by simp [AllTidy]

@[grind =]
theorem allTidy_cons {t : Token} {ts : List Token} : AllTidy (t :: ts) ↔ t.Tidy ∧ AllTidy ts :=
  List.forall_mem_cons

@[grind =]
theorem allTidy_append {ts us : List Token} : AllTidy (ts ++ us) ↔ AllTidy ts ∧ AllTidy us :=
  List.forall_mem_append

def Stream.Tidy (s : Stream) : Prop := AllTidy s.tokens

@[grind =]
theorem Stream.tidy_iff {s : Stream} : s.Tidy ↔ AllTidy s.tokens := Iff.rfl

@[grind →]
theorem closeBrackets_splits {depth : Nat} {ts inside after : List Token}
    (h : closeBrackets depth ts = some (inside,after)) : inside ++ after = ts := by
  induction ts generalizing depth inside with
  | nil => simp [closeBrackets] at h
  | cons t ts ih =>
    unfold closeBrackets at h
    split at h
    · cases h
    · cases h
      rfl
    all_goals
      obtain ⟨r,hr,heq⟩ := Option.map_eq_some_iff.mp h
      cases heq
      exact congrArg (t :: ·) (ih hr)

theorem closeAngles_splits {depth : Nat} {ts inside after : List Token}
    (h : closeAngles depth ts = some (inside,after)) : inside ++ after = ts := by
  induction ts generalizing depth inside with
  | nil => simp [closeAngles] at h
  | cons t ts ih =>
    have hfurther : ∀ d, (closeAngles d ts).map (fun r => (t :: r.1,r.2)) = some (inside,after) →
        inside ++ after = t :: ts := by
      intro d hd
      obtain ⟨r,hr,heq⟩ := Option.map_eq_some_iff.mp hd
      cases heq
      exact congrArg (t :: ·) (ih hr)
    rw [closeAngles] at h
    split at h
    · split at h
      · cases h
        rfl
      · exact hfurther _ h
    · split at h
      · exact hfurther _ h
      · split at h
        · exact hfurther _ h
        · cases h

theorem initializerTokens_splits (turns : Nat) (ts : List Token) :
    (initializerTokens turns ts).1 ++ (initializerTokens turns ts).2 = ts := by
  fun_induction initializerTokens turns ts with
  | case1 => rfl
  | case2 => rfl
  | case3 => rfl
  | case4 turns t ts hend inside taken rest hinside more after hrest ih =>
    have htaken : taken ++ rest = ts := by
      dsimp only [inside] at hinside
      split at hinside
      · exact closeBrackets_splits hinside
      · split at hinside
        · exact closeAngles_splits hinside
        · cases hinside
    rw [hrest] at ih
    calc t :: (taken ++ more) ++ after
        = t :: (taken ++ (more ++ after)) := by rw [List.cons_append,List.append_assoc]
      _ = t :: (taken ++ rest) := by rw [ih]
      _ = t :: ts := by rw [htaken]
  | case5 turns t ts hend inside hinside more after hrest ih =>
    rw [hrest] at ih
    exact congrArg (t :: ·) ih

theorem statementTokens_suffix {turns : Nat} {ts rest : List Token}
    (h : statementTokens turns ts = some rest) : rest <:+ ts := by
  fun_induction statementTokens turns ts with
  | case1 => cases h
  | case2 => cases h
  | case3 turns t ts =>
    cases h
    exact List.suffix_cons t rest
  | case4 => cases h
  | case5 turns t ts _ _ inside after hclosed =>
    cases h
    rw [← closeBrackets_splits hclosed]
    exact List.suffix_append (t :: inside) rest
  | case6 turns t ts _ _ inside after hclosed _ ih =>
    rw [← closeBrackets_splits hclosed]
    exact (ih h).trans (List.suffix_append (t :: inside) after)
  | case7 => cases h
  | case8 turns t ts _ _ ih => exact (ih h).trans (List.suffix_cons t ts)

theorem tidy_scanFrom {turns : Nat} {gap : List Char} {comments : List Node} {cs : List Char}
    (h : ∀ c ∈ comments, c.Throughout Node.Complete) :
    AllTidy (Token.scanFrom turns gap comments cs) := by
  have hcomment : ∀ {kind : Kind} {text : String}, kind ≠ .annotatedType → kind ≠ .scopedTypeIdentifier →
      Node.Throughout Node.Complete { kind,text } := fun ha hs =>
    .intro (Node.complete_of_kind ha hs) (by simp)
  fun_induction Token.scanFrom turns gap comments cs with
  | case1 => exact allTidy_nil.mpr trivial
  | case2 => exact allTidy_nil.mpr trivial
  | case3 turns gap comments cs text comment ih =>
    exact ih (List.forall_mem_cons.mpr ⟨hcomment (by simp) (by simp),h⟩)
  | case4 turns gap comments cs inside rest _ text comment ih =>
    exact ih (List.forall_mem_cons.mpr ⟨hcomment (by simp) (by simp),h⟩)
  | case5 _ _ _ _ _ _ _ _ ih => exact ih h
  | case6 turns gap comments c cs _ _ _ text rest _ ih =>
    refine allTidy_cons.mpr ⟨fun c hc => ?_,ih (by simp)⟩
    exact h c (List.mem_reverse.mp hc)

theorem tidy_scan (source : List Char) : AllTidy (Token.scan source) :=
  tidy_scanFrom (by simp)

end Tokens

section Pieces

structure Piece.Whole (p : Piece) : Prop where
  node : p.node.Throughout Node.Complete
  comments : ∀ c ∈ p.comments, c.Throughout Node.Complete

def AllWhole (ps : List Piece) : Prop := ∀ p ∈ ps, p.Whole

@[simp, grind =]
theorem allWhole_nil : AllWhole [] ↔ True := by simp [AllWhole]

@[simp, grind =]
theorem allWhole_cons {p : Piece} {ps : List Piece} : AllWhole (p :: ps) ↔ p.Whole ∧ AllWhole ps :=
  List.forall_mem_cons

@[simp, grind =]
theorem allWhole_append {ps qs : List Piece} : AllWhole (ps ++ qs) ↔ AllWhole ps ∧ AllWhole qs :=
  List.forall_mem_append

variable {p : Piece} {ps : List Piece} {k : Kind} {t : Token}

@[grind ←]
theorem leaf_whole (h : t.Tidy) (ha : k ≠ .annotatedType) (hs : k ≠ .scopedTypeIdentifier)
    (named : Bool) : (Piece.leaf k named t).Whole where
  node := .intro (Node.complete_of_kind ha hs) (by simp [Piece.leaf])
  comments := h

@[simp, grind =]
theorem inRole_whole {role : Role} : (p.inRole role).Whole ↔ p.Whole where
  mp h := ⟨.intro ⟨h.node.here.annotated,h.node.here.qualified⟩ h.node.inside,h.comments⟩
  mpr h := ⟨.intro ⟨h.node.here.annotated,h.node.here.qualified⟩ h.node.inside,h.comments⟩

@[grind ←]
theorem allWhole_inRole {role : Role} (h : AllWhole ps) : AllWhole (ps.map (·.inRole role)) := by
  intro p hp
  obtain ⟨q,hq,rfl⟩ := List.mem_map.mp hp
  exact inRole_whole.mpr (h q hq)

theorem group_children (h : AllWhole ps) :
    ∀ c ∈ (Piece.group k ps).node.children, c.Throughout Node.Complete := by
  cases ps with
  | nil => simp [Piece.group]
  | cons p ps =>
    obtain ⟨hp,hps⟩ := allWhole_cons.mp h
    intro c hc
    rcases List.mem_cons.mp hc with rfl | hc
    · exact hp.node
    · obtain ⟨q,hq,hc⟩ := List.mem_flatMap.mp hc
      rcases List.mem_append.mp hc with hc | hc
      · exact (hps q hq).comments c hc
      · rw [List.mem_singleton.mp hc]
        exact (hps q hq).node

theorem mem_group_children (h : p ∈ ps) : p.node ∈ (Piece.group k ps).node.children := by
  cases ps with
  | nil => cases h
  | cons q ps =>
    rcases List.mem_cons.mp h with rfl | h
    · exact List.mem_cons_self
    · exact List.mem_cons_of_mem _ (List.mem_flatMap.mpr ⟨p,h,by simp⟩)

@[simp, grind =]
theorem group_kind (k : Kind) (ps : List Piece) : (Piece.group k ps).node.kind = k := by
  cases ps <;> rfl

@[simp, grind =]
theorem group_named (k : Kind) (ps : List Piece) : (Piece.group k ps).node.named = true := by
  cases ps <;> rfl

theorem group_comments (h : AllWhole ps) :
    ∀ c ∈ (Piece.group k ps).comments, c.Throughout Node.Complete := by
  cases ps with
  | nil => simp [Piece.group]
  | cons p ps => exact (allWhole_cons.mp h).1.comments

theorem group_whole (h : AllWhole ps)
    (ha : k = .annotatedType → ∃ p ∈ ps, p.node.named = true ∧ p.node.kind.isAnnot = false)
    (hs : k = .scopedTypeIdentifier → ∃ p ∈ ps, p.node.named = true ∧ p.node.kind = .typeIdentifier) :
    (Piece.group k ps).Whole := by
  refine ⟨.intro ⟨fun hk => ?_,fun hk => ?_⟩ (group_children h),group_comments h⟩
  · obtain ⟨p,hp,hnamed,hkind⟩ := ha ((group_kind k ps).symm.trans hk)
    exact ⟨p.node,List.mem_filter.mpr ⟨mem_group_children hp,hnamed⟩,hkind⟩
  · obtain ⟨p,hp,hnamed,hkind⟩ := hs ((group_kind k ps).symm.trans hk)
    exact ⟨p.node,List.mem_filter.mpr ⟨mem_group_children hp,hnamed⟩,hkind⟩

@[grind ←]
theorem plainGroup_whole (h : AllWhole ps) (ha : k ≠ .annotatedType) (hs : k ≠ .scopedTypeIdentifier) :
    (Piece.group k ps).Whole :=
  group_whole h (fun hk => absurd hk ha) fun hk => absurd hk hs

@[grind ←]
theorem sealed_whole {ts : List Token} (h : AllTidy ts) (ha : k ≠ .annotatedType)
    (hs : k ≠ .scopedTypeIdentifier) : (Piece.sealed k ts).Whole := by
  have hleaves : AllWhole (ts.map (Piece.leaf k false)) := by
    intro p hp
    obtain ⟨t,ht,rfl⟩ := List.mem_map.mp hp
    exact leaf_whole (h t ht) ha hs false
  have hgroup := plainGroup_whole hleaves ha hs
  refine ⟨.intro (Node.complete_of_kind ?_ ?_) (by simp [Piece.sealed]),hgroup.comments⟩
  · rwa [Piece.sealed,group_kind]
  · rwa [Piece.sealed,group_kind]

end Pieces

abbrev Gives {α : Type} (P : α → Prop) (r : Reader α) : Prop :=
  ⦃fun s => ⌜s.Tidy⌝⦄ r ⦃⇓? a s => ⌜s.Tidy ∧ P a⌝⦄

abbrev GivesAny {α : Type} (r : Reader α) : Prop := Gives (fun _ => True) r

theorem gives_iff {α : Type} {P : α → Prop} {r : Reader α} :
    Gives P r ↔ ∀ s : Stream, s.Tidy → ∀ a s', r.run s = some (a,s') → s'.Tidy ∧ P a := by
  constructor
  · intro h s hs a s' hr
    have hwp : (wp⟦r.run s⟧ (fun p => ⌜p.2.Tidy ∧ P p.1⌝,ExceptConds.true)).down := h s hs
    rw [hr] at hwp
    exact hwp
  · intro h s hs
    change (wp⟦r.run s⟧ (fun p => ⌜p.2.Tidy ∧ P p.1⌝,ExceptConds.true)).down
    cases hr : r.run s with
    | none => trivial
    | some p => exact h s hs p.1 p.2 hr

namespace Reader

section Means

variable {α : Type} {P : α → Prop}

theorem gives_failure : Gives P (failure : Reader α) := fun _ _ => trivial

@[spec]
theorem failure_gives : Gives (fun _ => False) (failure : Reader α) := gives_failure

theorem orElse_gives {r : Reader α} {other : Unit → Reader α} (hr : Gives P r)
    (hother : Gives P (other ())) : Gives P (HOrElse.hOrElse r other) := by
  rw [gives_iff] at hr hother ⊢
  intro s hs a s' h
  have hsplit : (HOrElse.hOrElse r other).run s = (r.run s <|> (other ()).run s) := rfl
  rw [hsplit] at h
  cases hrs : r.run s with
  | none =>
    rw [hrs] at h
    exact hother s hs a s' h
  | some p =>
    rw [hrs] at h
    exact hr s hs a s' (hrs.trans h)

@[spec]
theorem orElse_whole {r : Reader Piece} {other : Unit → Reader Piece} (hr : Gives Piece.Whole r)
    (hother : Gives Piece.Whole (other ())) : Gives Piece.Whole (HOrElse.hOrElse r other) :=
  orElse_gives hr hother

@[spec]
theorem orElse_allWhole {r : Reader (List Piece)} {other : Unit → Reader (List Piece)}
    (hr : Gives AllWhole r) (hother : Gives AllWhole (other ())) :
    Gives AllWhole (HOrElse.hOrElse r other) :=
  orElse_gives hr hother

@[spec]
theorem ahead_gives (places : Nat) : GivesAny (ahead places) := by
  mvcgen [ahead]

@[spec]
theorem wordAhead_gives (places : Nat) : GivesAny (wordAhead places) := by
  mvcgen [wordAhead]

@[spec]
theorem joined_gives (places : Nat) : GivesAny (joined places) := by
  mvcgen [joined]

@[spec]
theorem atEnd_gives : GivesAny atEnd := by
  mvcgen [atEnd]

@[spec]
theorem budget_gives : GivesAny budget := by
  mvcgen [budget]

@[spec]
theorem flaw_gives : GivesAny flaw := by
  mvcgen [flaw]

@[spec]
theorem missing_gives (marks : Nat) : GivesAny (missing marks) := by
  mvcgen [missing]

@[spec]
theorem token_gives : Gives Token.Tidy token := by
  mvcgen [token] <;> grind

theorem ofName_ne {text : String} (ha : text ≠ "annotated_type") (hs : text ≠ "scoped_type_identifier") :
    Kind.ofName text ≠ .annotatedType ∧ Kind.ofName text ≠ .scopedTypeIdentifier := by
  have hnames : ∀ p ∈ Kind.names, p.1 ≠ "annotated_type" → p.1 ≠ "scoped_type_identifier" →
      p.2 ≠ .annotatedType ∧ p.2 ≠ .scopedTypeIdentifier := by decide
  rw [Kind.ofName]
  cases hl : Kind.names.lookup text with
  | none => exact ⟨by simp,by simp⟩
  | some k =>
    obtain ⟨front,back,hsplit,_⟩ := List.lookup_eq_some_iff.mp hl
    exact hnames (text,k) (by simp [hsplit]) ha hs

@[spec]
theorem mark_gives (text : String) (ha : text ≠ "annotated_type") (hs : text ≠ "scoped_type_identifier") :
    Gives Piece.Whole (mark text) := by
  have hkind := ofName_ne ha hs
  mvcgen [mark] <;> grind

@[spec]
theorem expected_gives (text : String) (ha : text ≠ "annotated_type") (hs : text ≠ "scoped_type_identifier") :
    Gives AllWhole (expected text) := by
  mvcgen [expected] <;> grind

@[spec]
theorem word_gives (k : Kind) (ha : k ≠ .annotatedType) (hs : k ≠ .scopedTypeIdentifier) :
    Gives (fun p => p.Whole ∧ p.node.kind = k ∧ p.node.named = true) (word k) := by
  mvcgen [word] <;> grind [Piece.leaf]

@[spec]
theorem atMostOnce_gives {r : Reader Piece} (hr : Gives Piece.Whole r) : Gives AllWhole (atMostOnce r) := by
  mvcgen [atMostOnce,hr] <;> grind

@[spec]
theorem many_gives {r : Reader Piece} (hr : Gives Piece.Whole r) (turns : Nat) :
    Gives AllWhole (many r turns) := by
  induction turns with
  | zero =>
    mvcgen [many]
    grind
  | succ turns ih => mvcgen [many,hr,ih] <;> grind

@[spec]
theorem manyPairs_gives {r : Reader Piece} (hr : Gives Piece.Whole r) (turns : Nat) :
    Gives AllWhole (listOf.manyPairs r turns) := by
  induction turns with
  | zero =>
    mvcgen [listOf.manyPairs]
    grind
  | succ turns ih => mvcgen [listOf.manyPairs,hr,ih] <;> grind

@[spec]
theorem listOf_gives {r : Reader Piece} (hr : Gives Piece.Whole r) (turns : Nat) :
    Gives AllWhole (listOf r turns) := by
  mvcgen [listOf,hr] <;> grind

@[spec]
theorem bracketed_gives (k : Kind) (opening : String) (ha : k ≠ .annotatedType)
    (hs : k ≠ .scopedTypeIdentifier) : Gives Piece.Whole (bracketed k opening) := by
  mvcgen [bracketed] <;> grind

end Means

end Reader

end ClassDiagram.Java
