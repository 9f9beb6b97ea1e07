import ClassDiagram.Diagram.Build
import Mathlib.Data.List.Forall2

/-!
Declarations with the declarations around them. A source file is a forest: each of its declarations has
one placement, which keeps the headers of the types around it, outermost first. The placements stand in
the order in which the worklist meets the declarations.
-/

namespace ClassDiagram

theorem forall₂_flatMap {α β γ δ : Type} {R : α → β → Prop} {S : γ → δ → Prop} {f : α → List γ}
    {g : β → List δ} {xs : List α} {ys : List β} (h : List.Forall₂ R xs ys)
    (hfg : ∀ x ∈ xs, ∀ y, R x y → List.Forall₂ S (f x) (g y)) :
    List.Forall₂ S (xs.flatMap f) (ys.flatMap g) := by
  induction h with
  | nil => exact .nil
  | cons hxy _ ih =>
    rw [List.flatMap_cons,List.flatMap_cons]
    exact List.rel_append (hfg _ (by simp) _ hxy) (ih fun x hx => hfg x (List.mem_cons_of_mem _ hx))

namespace Declaration

@[elab_as_elim]
theorem forest_induction {P : List Declaration → Prop} (nil : P [])
    (cons : ∀ h members ds, P members → P ds → P (⟨h, members⟩ :: ds)) (ds : List Declaration) :
    P ds := by
  induction hn : sizes ds using Nat.strongRecOn generalizing ds with
  | ind n ih =>
    subst hn
    cases ds with
    | nil => exact nil
    | cons d ds =>
      obtain ⟨h,members⟩ := d
      refine cons h members ds (ih _ ?_ _ rfl) (ih _ ?_ _ rfl)
      · simp only [sizes,size]; omega
      · simp only [sizes,size]; omega

theorem walkFrom_append (xs ys : List Declaration) :
    walkFrom (xs ++ ys) = walkFrom xs ++ walkFrom ys := by
  induction xs using forest_induction generalizing ys with
  | nil => simp [walkFrom]
  | cons h members ds ihm ihs =>
    rw [List.cons_append,walkFrom,walkFrom,ihm,ihm,ihs]
    simp only [List.cons_append,List.append_assoc]

theorem walkFrom_cons (d : Declaration) (ds : List Declaration) :
    walkFrom (d :: ds) = d :: (walkFrom d.members ++ walkFrom ds) := by
  rw [walkFrom,walkFrom_append]

theorem walkFrom_length (ds : List Declaration) : (walkFrom ds).length = sizes ds := by
  induction ds using forest_induction with
  | nil => simp [walkFrom,sizes]
  | cons h members ds ihm ihs =>
    rw [walkFrom_cons]
    simp only [List.length_cons,List.length_append,sizes,size,ihm,ihs]
    omega

end Declaration

def dottedPath (chain : List Header) : String := ".".intercalate (chain.map Header.displayName)

def enclosingPath (around : List Header) : Option String :=
  if around = [] then none else some (dottedPath around)

theorem dottedPath_append {around : List Header} (ha : around ≠ []) (h : Header) :
    dottedPath (around ++ [h]) = dottedPath around ++ "." ++ h.displayName := by
  have hm : around.map Header.displayName ≠ [] := by simpa using ha
  rw [dottedPath,dottedPath,List.map_append,String.intercalate_append_of_ne_nil hm (by simp)]
  simp

theorem joinPath_enclosingPath (around : List Header) (h : Header) :
    joinPath (enclosingPath around) h.displayName = dottedPath (around ++ [h]) := by
  by_cases ha : around = []
  · subst ha
    simp [enclosingPath,joinPath,dottedPath]
  · rw [enclosingPath,if_neg ha,joinPath,dottedPath_append ha]

theorem enclosingPath_append (around : List Header) (h : Header) :
    enclosingPath (around ++ [h]) = some (dottedPath (around ++ [h])) := by
  simp [enclosingPath]

structure Placement where
  enclosing : List Header
  declaration : Declaration

namespace Placement

def chain (p : Placement) : List Header := p.enclosing ++ [p.declaration.toHeader]

def path (p : Placement) : String := dottedPath p.chain

end Placement

namespace Declaration

mutual

def placementsIn (around : List Header) : Declaration → List Placement
  | ⟨h, members⟩ => ⟨around, ⟨h, members⟩⟩ :: placementsAmong (around ++ [h]) members

def placementsAmong (around : List Header) : List Declaration → List Placement
  | [] => []
  | d :: ds => placementsIn around d ++ placementsAmong around ds

end

theorem placementsAmong_cons (around : List Header) (d : Declaration) (ds : List Declaration) :
    placementsAmong around (d :: ds) =
      ⟨around,d⟩ :: (placementsAmong (around ++ [d.toHeader]) d.members ++
        placementsAmong around ds) := by
  cases d
  simp [placementsAmong,placementsIn]

theorem placementsAmong_declarations (around : List Header) (ds : List Declaration) :
    (placementsAmong around ds).map Placement.declaration = walkFrom ds := by
  induction ds using forest_induction generalizing around with
  | nil => simp [placementsAmong,walkFrom]
  | cons h members ds ihm ihs =>
    rw [placementsAmong_cons,walkFrom_cons,List.map_cons,List.map_append,ihm,ihs]

end Declaration

def SourceUnit.placements (u : SourceUnit) : List Placement :=
  Declaration.placementsAmong [] u.types

theorem SourceUnit.placements_declarations (u : SourceUnit) :
    u.placements.map Placement.declaration = u.walk :=
  Declaration.placementsAmong_declarations [] u.types

end ClassDiagram
