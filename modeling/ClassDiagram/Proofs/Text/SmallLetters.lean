import ClassDiagram.Text.LowerCase

/-!
Small letters stay as they are when a text is made small: no small letter of a capital is a capital again. For
the runs of capitals this is a check of each run against all of them, which is quick because most of them lie
apart from its small letters.
-/

namespace ClassDiagram.Text

namespace CaseRun

variable {r : CaseRun} {n : Nat}

def size (r : CaseRun) : Nat := (r.last - r.first) / r.step + 1

end CaseRun

-- The runs, and the one capital that is made small into two characters.
def capitals : List CaseRun := ⟨0x130,0x130,1,0⟩ :: caseRuns

def Small (s : String) : Prop := ∀ c ∈ s.toList, lowerChar c = [c]

theorem lowerAt_of_small {c : Char} (h : lowerChar c = [c]) (before after : List Char) :
    lowerAt before c after = [c] := by
  rw [lowerAt,if_neg,h]
  rintro rfl
  exact absurd h (by decide)

theorem lowerFrom_of_small {cs : List Char} (h : ∀ c ∈ cs, lowerChar c = [c]) (before : List Char) :
    lowerFrom before cs = cs := by
  induction cs generalizing before with
  | nil => rfl
  | cons c cs ih =>
    obtain ⟨hc,hrest⟩ := List.forall_mem_cons.mp h
    rw [lowerFrom,lowerAt_of_small hc,ih hrest,List.singleton_append]

theorem Small.lower {s : String} (h : Small s) : Text.lower s = s := by
  rw [Text.lower,lowerFrom_of_small h,String.ofList_toList]

end ClassDiagram.Text
