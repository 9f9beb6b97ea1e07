import ClassDiagram.Ignore.Rule
import ClassDiagram.Proofs.Outcome
import Mathlib.Data.List.Basic

/-!
Rules that ignore a directory together with what is below it. Most pieces of a pattern take characters from the
front of a path and look no further, so they take the same ones from every longer path; a pattern then fits
what is below a directory that it fits. What can go wrong is a pattern that asks for the end of a path: one
that ends in a name of its own does not, because the end of a directory is a slash, which names do not have.
-/

namespace ClassDiagram.Ignore

theorem CharClass.has_only {c d : Char} : (only c).has d = true ↔ d = c := by
  simp [has,only,Char.ext_iff,UInt32.le_antisymm_iff,Char.le_def,and_comm]

theorem CharClass.has_inName {c : Char} : inName.has c = true ↔ c ≠ '/' := by
  have hnot : inName.has c = !(only '/').has c := by simp [has,inName,allBut,only]
  rw [hnot,Bool.not_eq_true',← Bool.not_eq_true,has_only]

section Pieces

variable {k : CharClass} {p : Piece} {ps : List Piece} {cs rest more : List Char}

-- Whether a piece asks where a path ends.
def Piece.seesEnd : Piece → Bool
  | .slashOrEnd | .optionalSlashEnd => true
  | _ => false

theorem mem_afterOne : rest ∈ afterOne k cs ↔ ∃ c, k.has c = true ∧ cs = c :: rest := by
  cases cs with
  | nil => simp [afterOne]
  | cons c cs =>
    rw [afterOne]
    split
    · rename_i hc
      constructor
      · intro h
        exact ⟨c,hc,by rw [List.mem_singleton.mp h]⟩
      · rintro ⟨d,_,heq⟩
        exact List.mem_singleton.mpr (List.cons.inj heq).2.symm
    · rename_i hc
      constructor
      · intro h
        simp at h
      · rintro ⟨d,hd,heq⟩
        exact absurd ((List.cons.inj heq).1 ▸ hd) hc

theorem mem_afterRun : rest ∈ afterRun k cs ↔ ∃ taken, (∀ c ∈ taken, k.has c = true) ∧ cs = taken ++ rest := by
  constructor
  · intro h
    induction cs with
    | nil =>
      obtain rfl : rest = [] := by simpa [afterRun] using h
      exact ⟨[],by simp,rfl⟩
    | cons c cs ih =>
      rw [afterRun] at h
      split at h
      · rename_i hc
        rcases List.mem_cons.mp h with rfl | h
        · exact ⟨[],by simp,rfl⟩
        · obtain ⟨taken,htaken,rfl⟩ := ih h
          exact ⟨c :: taken,List.forall_mem_cons.mpr ⟨hc,htaken⟩,rfl⟩
      · exact ⟨[],by simp,(List.mem_singleton.mp h).symm⟩
  · rintro ⟨taken,htaken,rfl⟩
    induction taken with
    | nil => exact mem_afterRun_self k rest
    | cons c taken ih =>
      obtain ⟨hc,htaken⟩ := List.forall_mem_cons.mp htaken
      rw [List.cons_append,afterRun,if_pos hc]
      exact List.mem_cons_of_mem _ (ih htaken)

theorem append_mem_afterOne (h : rest ∈ afterOne k cs) : rest ++ more ∈ afterOne k (cs ++ more) := by
  obtain ⟨c,hc,rfl⟩ := mem_afterOne.mp h
  exact mem_afterOne.mpr ⟨c,hc,rfl⟩

theorem append_mem_afterRun (h : rest ∈ afterRun k cs) : rest ++ more ∈ afterRun k (cs ++ more) := by
  obtain ⟨taken,htaken,rfl⟩ := mem_afterRun.mp h
  exact mem_afterRun.mpr ⟨taken,htaken,List.append_assoc _ _ _⟩

theorem append_mem_afterSome (h : rest ∈ afterSome k cs) : rest ++ more ∈ afterSome k (cs ++ more) := by
  obtain ⟨first,hfirst,hrest⟩ := List.mem_flatMap.mp h
  exact List.mem_flatMap.mpr ⟨_,append_mem_afterOne hfirst,append_mem_afterRun hrest⟩

theorem append_mem_after (hp : p.seesEnd = false) (h : rest ∈ p.after cs) :
    rest ++ more ∈ p.after (cs ++ more) := by
  cases p with
  | one k => exact append_mem_afterOne h
  | run k => exact append_mem_afterRun h
  | ancestors =>
    rcases List.mem_cons.mp h with rfl | h
    · exact List.mem_cons_self
    · obtain ⟨first,hfirst,hrest⟩ := List.mem_flatMap.mp h
      exact List.mem_cons_of_mem _ (List.mem_flatMap.mpr ⟨_,append_mem_afterSome hfirst,append_mem_afterOne hrest⟩)
  | between =>
    rcases List.mem_cons.mp h with rfl | h
    · exact List.mem_cons_self
    · obtain ⟨first,hfirst,hrest⟩ := List.mem_flatMap.mp h
      exact List.mem_cons_of_mem _ (List.mem_flatMap.mpr ⟨_,append_mem_afterOne hfirst,append_mem_afterSome hrest⟩)
  | slashOrEnd => simp [Piece.seesEnd] at hp
  | optionalSlashEnd => simp [Piece.seesEnd] at hp

theorem suffix_of_mem_afterOne (h : rest ∈ afterOne k cs) : rest <:+ cs := by
  obtain ⟨c,_,rfl⟩ := mem_afterOne.mp h
  exact List.suffix_cons c rest

theorem suffix_of_mem_afterRun (h : rest ∈ afterRun k cs) : rest <:+ cs := by
  obtain ⟨taken,_,rfl⟩ := mem_afterRun.mp h
  exact List.suffix_append taken rest

theorem suffix_of_mem_afterSome (h : rest ∈ afterSome k cs) : rest <:+ cs := by
  obtain ⟨first,hfirst,hrest⟩ := List.mem_flatMap.mp h
  exact (suffix_of_mem_afterRun hrest).trans (suffix_of_mem_afterOne hfirst)

theorem suffix_of_mem_after (hp : p.seesEnd = false) (h : rest ∈ p.after cs) : rest <:+ cs := by
  cases p with
  | one k => exact suffix_of_mem_afterOne h
  | run k => exact suffix_of_mem_afterRun h
  | ancestors =>
    rcases List.mem_cons.mp h with rfl | h
    · exact List.suffix_refl _
    · obtain ⟨first,hfirst,hrest⟩ := List.mem_flatMap.mp h
      exact (suffix_of_mem_afterOne hrest).trans (suffix_of_mem_afterSome hfirst)
  | between =>
    rcases List.mem_cons.mp h with rfl | h
    · exact List.suffix_refl _
    · obtain ⟨first,hfirst,hrest⟩ := List.mem_flatMap.mp h
      exact (suffix_of_mem_afterSome hrest).trans (suffix_of_mem_afterOne hfirst)
  | slashOrEnd => simp [Piece.seesEnd] at hp
  | optionalSlashEnd => simp [Piece.seesEnd] at hp

theorem fits_cons : fits (p :: ps) cs = true ↔ ∃ rest ∈ p.after cs, fits ps rest = true := by
  rw [fits,List.any_eq_true]

-- What is left of a directory's path is nothing, or it ends in the slash.
def EndsInSlash (cs : List Char) : Prop := ∀ c ∈ cs.getLast?, c = '/'

theorem EndsInSlash.suffix (h : EndsInSlash cs) (hrest : rest <:+ cs) : EndsInSlash rest := by
  obtain ⟨taken,rfl⟩ := hrest
  intro c hc
  cases rest with
  | nil => simp at hc
  | cons d rest =>
    refine h c ?_
    rwa [List.getLast?_append_of_ne_nil _ (by simp)]

theorem fits_slashOrEnd_of (h : EndsInSlash cs) (hfits : fits [.slashOrEnd] cs = true) :
    cs = [] ∨ ∃ rest, cs = '/' :: rest := by
  obtain ⟨rest,hrest,_⟩ := fits_cons.mp hfits
  rcases List.mem_append.mp hrest with hrest | hrest
  · obtain ⟨c,hc,rfl⟩ := mem_afterOne.mp hrest
    obtain rfl := CharClass.has_only.mp hc
    exact .inr ⟨rest,rfl⟩
  · split at hrest
    · rename_i hend
      rcases (by simpa [atEnd] using hend : cs = [] ∨ cs = ['\n']) with rfl | rfl
      · exact .inl rfl
      · exact absurd (h '\n' rfl) (by decide)
    · simp at hrest

theorem fits_slashOrEnd_slash : fits [.slashOrEnd] ('/' :: rest) = true := by
  refine fits_cons.mpr ⟨rest,List.mem_append_left _ (mem_afterOne.mpr ⟨'/',by decide,rfl⟩),rfl⟩

theorem fits_slashOrEnd_nil : fits [.slashOrEnd] [] = true := by decide

-- A run to the end of a name comes to a slash or to the end of the path.
theorem fits_name (cs : List Char) : fits [.run .inName,.slashOrEnd] cs = true := by
  induction cs with
  | nil => exact fits_cons.mpr ⟨[],mem_afterRun_self _ _,fits_slashOrEnd_nil⟩
  | cons c cs ih =>
    by_cases hc : c = '/'
    · subst hc
      exact fits_cons.mpr ⟨_,mem_afterRun_self _ _,fits_slashOrEnd_slash⟩
    · obtain ⟨rest,hrest,hfits⟩ := fits_cons.mp ih
      obtain ⟨taken,htaken,rfl⟩ := mem_afterRun.mp hrest
      refine fits_cons.mpr ⟨rest,mem_afterRun.mpr ⟨c :: taken,?_,rfl⟩,hfits⟩
      exact List.forall_mem_cons.mpr ⟨CharClass.has_inName.mpr hc,htaken⟩

-- Whether pieces ask for the end of a path only after a name.
def settled : List Piece → Bool
  | [] => true
  | [.one k, .slashOrEnd] => !k.has '/'
  | [.run k, .slashOrEnd] => k = .inName
  | p :: ps => !p.seesEnd && settled ps

theorem fits_one_below (hk : k.has '/' = false) (hcs : EndsInSlash cs)
    (h : fits [.one k,.slashOrEnd] cs = true) : fits [.one k,.slashOrEnd] (cs ++ more) = true := by
  obtain ⟨rest,hrest,hfits⟩ := fits_cons.mp h
  refine fits_cons.mpr ⟨_,append_mem_afterOne hrest,?_⟩
  obtain ⟨c,hc,rfl⟩ := mem_afterOne.mp hrest
  rcases fits_slashOrEnd_of (hcs.suffix (List.suffix_cons c rest)) hfits with rfl | ⟨rest,rfl⟩
  · -- The last character is the slash, which the class does not have.
    obtain rfl := hcs c rfl
    simp [hk] at hc
  · exact fits_slashOrEnd_slash

theorem fits_below (hps : settled ps = true) (hcs : EndsInSlash cs) (h : fits ps cs = true) :
    fits ps (cs ++ more) = true := by
  induction ps using settled.induct generalizing cs with
  | case1 => rfl
  | case2 k => exact fits_one_below (by simpa [settled] using hps) hcs h
  | case3 k =>
    obtain rfl : k = .inName := by simpa [settled] using hps
    exact fits_name _
  | case4 p ps hone hrun ih =>
    rw [settled.eq_4 p ps hone hrun,Bool.and_eq_true,Bool.not_eq_true'] at hps
    obtain ⟨rest,hrest,hfits⟩ := fits_cons.mp h
    refine fits_cons.mpr ⟨_,append_mem_after hps.1 hrest,?_⟩
    exact ih hps.2 (hcs.suffix (suffix_of_mem_after hps.1 hrest)) hfits

end Pieces

section Rules

variable {cs : List Char} {rule : Rule} {rules : List Rule} {lines : List String} {line path : String}

def Rule.Fits (rule : Rule) (path : String) : Prop := fits rule.pieces (fromRoot path.toList) = true

-- A rule that fits a directory fits every path below it.
def Rule.CoversBelow (rule : Rule) : Prop :=
  ∀ directory path : String, rule.Fits (directory ++ "/") → rule.Fits (directory ++ "/" ++ path)

-- The start that is taken off a directory's path stands before its last slash.
theorem fromRoot_append (hne : cs ≠ []) (hcs : EndsInSlash cs) (more : List Char) :
    fromRoot (cs ++ more) = fromRoot cs ++ more := by
  fun_cases fromRoot cs with
  | case1 rest => rfl
  | case2 rest => rfl
  | case3 _ hslash hdot =>
    obtain ⟨c,rest,rfl⟩ := List.exists_cons_of_ne_nil hne
    refine fromRoot.eq_3 _ (fun tail h => ?_) fun tail h => ?_
    · obtain ⟨rfl,_⟩ := List.cons.inj h
      exact hslash rest rfl
    · obtain ⟨rfl,htail⟩ := List.cons.inj h
      cases rest with
      | nil => exact absurd (hcs '.' rfl) (by decide)
      | cons d rest =>
        obtain ⟨rfl,_⟩ := List.cons.inj htail
        exact hdot rest rfl

theorem suffix_fromRoot (cs : List Char) : fromRoot cs <:+ cs := by
  rw [fromRoot.eq_def]
  split
  · exact List.suffix_cons _ _
  · exact ⟨['.','/'],rfl⟩
  · exact List.suffix_refl _

theorem Rule.coversBelow_of_settled (h : settled rule.pieces = true) : rule.CoversBelow := by
  intro directory path hfits
  have hends : EndsInSlash (directory ++ "/").toList := by
    intro c hc
    simpa using hc.symm
  rw [Fits,String.toList_append,fromRoot_append (by simp) hends]
  exact fits_below h (hends.suffix (suffix_fromRoot _)) hfits

-- A star that stands for a whole name fits the directories of that depth, and nothing below them.
example :
    let rule : Rule := ⟨true,"docs/".toList.map (fun c => .one (.only c)) ++ wholeName ++ [.optionalSlashEnd]⟩
    Rule.ofLine "docs/*" = .ok (some rule) ∧ fits rule.pieces "docs/old/".toList = true ∧
      fits rule.pieces "docs/old/A.java".toList = false := by
  exact ⟨by cbv,by decide +kernel,by decide +kernel⟩

theorem ignored_iff (h : ∀ rule ∈ rules, rule.ignores = true) :
    ignored rules path = true ↔ ∃ rule ∈ rules, rule.Fits path := by
  rw [ignored]
  cases hfound : rules.reverse.find? fun r => fits r.pieces (fromRoot path.toList) with
  | none =>
    have hnone := List.find?_eq_none.mp hfound
    simp only [Bool.false_eq_true,false_iff,not_exists,not_and]
    exact fun rule hrule => hnone rule (List.mem_reverse.mpr hrule)
  | some rule =>
    have hrule : rule ∈ rules := List.mem_reverse.mp (List.mem_of_find?_eq_some hfound)
    have hfits := List.find?_some hfound
    exact ⟨fun _ => ⟨rule,hrule,hfits⟩,fun _ => h rule hrule⟩

theorem ignored_below (hignores : ∀ rule ∈ rules, rule.ignores = true)
    (hcovers : ∀ rule ∈ rules, rule.CoversBelow) {directory : String}
    (h : ignored rules (directory ++ "/") = true) (path : String) :
    ignored rules (directory ++ "/" ++ path) = true := by
  obtain ⟨rule,hrule,hfits⟩ := (ignored_iff hignores).mp h
  exact (ignored_iff hignores).mpr ⟨rule,hrule,hcovers rule hrule directory path hfits⟩

-- A line that begins with an exclamation mark says what is kept.
def Negated (line : String) : Prop := line.toList.head? = some '!'

theorem prefix_withoutTrailingBlanks (cs : List Char) : withoutTrailingBlanks cs <+: cs := by
  rw [withoutTrailingBlanks]
  split
  · exact List.prefix_refl _
  · have hsuffix := List.reverse_prefix.mpr (List.dropWhile_suffix (l := cs.reverse) Text.isBlank)
    rwa [List.reverse_reverse] at hsuffix

theorem ignores_of_ruleOf {ignores : Bool} (h : ruleOf line ignores cs = .ok rule) :
    rule.ignores = ignores := by
  rw [ruleOf] at h
  split at h
  · cases h
  · split at h
    · cases h
      rfl
    · cases h
    · cases h

theorem Rule.ignores_of_ofLine (hline : ¬ Negated line) (h : Rule.ofLine line = .ok (some rule)) :
    rule.ignores = true := by
  have hprefix := prefix_withoutTrailingBlanks line.toList
  rw [ofLine] at h
  split at h
  · cases h
  · cases h
  · rename_i hmark
    obtain ⟨rest,hrest⟩ := hprefix
    rw [hmark] at hrest
    exact absurd (by rw [Negated,← hrest]; rfl) hline
  · obtain ⟨own,hown,heq⟩ := map_eq_ok.mp h
    obtain rfl := Option.some.inj heq
    exact ignores_of_ruleOf hown

theorem exists_line_of_mem {found : List (Option Rule)} (h : lines.mapM Rule.ofLine = .ok found)
    {rule : Option Rule} (hrule : rule ∈ found) : ∃ line ∈ lines, Rule.ofLine line = .ok rule := by
  induction lines generalizing found with
  | nil =>
    obtain rfl := pure_eq_ok.mp h
    simp at hrule
  | cons line lines ih =>
    rw [List.mapM_cons] at h
    obtain ⟨first,hfirst,h⟩ := bind_eq_ok.mp h
    obtain ⟨others,hothers,h⟩ := bind_eq_ok.mp h
    obtain rfl := pure_eq_ok.mp h
    rcases List.mem_cons.mp hrule with rfl | hrule
    · exact ⟨line,by simp,hfirst⟩
    · obtain ⟨l,hl,hrule⟩ := ih hothers hrule
      exact ⟨l,List.mem_cons_of_mem _ hl,hrule⟩

theorem ignores_of_rulesOf (hlines : ∀ line ∈ lines, ¬ Negated line) (h : rulesOf lines = .ok rules) :
    ∀ rule ∈ rules, rule.ignores = true := by
  obtain ⟨found,hfound,h⟩ := bind_eq_ok.mp h
  obtain rfl := pure_eq_ok.mp h
  intro rule hrule
  obtain ⟨line,hline,hown⟩ := exists_line_of_mem hfound (by simpa using hrule)
  exact Rule.ignores_of_ofLine (hlines line hline) hown

end Rules

end ClassDiagram.Ignore
