import ClassDiagram.Proofs.Diagram.Imports
import ClassDiagram.Proofs.PlantUml.Unambiguous
import Mathlib.Data.List.Perm.Basic

/-!
Relationships are drawn once. Of the relationships of some documents, taken one document after another, each is
kept where it occurs first; the diagram has a line for each that is kept, in this order, after the blocks of all
entities, and no other line that could be taken for one.
-/

namespace ClassDiagram

section FirstOccurrences

variable {α : Type} [DecidableEq α] {seen xs ys : List α}

theorem firstOccurrences_eq_self (hx : xs.Nodup) (hs : ∀ x ∈ xs, x ∉ seen) :
    firstOccurrences seen xs = xs := by
  induction xs generalizing seen with
  | nil => rfl
  | cons x xs ih =>
    obtain ⟨hnot,hxs⟩ := List.nodup_cons.mp hx
    obtain ⟨hseen,hrest⟩ := List.forall_mem_cons.mp hs
    rw [firstOccurrences,if_neg hseen,ih hxs fun y hy => ?_]
    rintro hmem
    rcases List.mem_cons.mp hmem with rfl | hmem
    · exact hnot hy
    · exact hrest y hy hmem

theorem firstOccurrences_pairwise (seen xs : List α) :
    (firstOccurrences seen xs).Pairwise fun a b => xs.idxOf a < xs.idxOf b := by
  induction xs generalizing seen with
  | nil => exact .nil
  | cons x xs ih =>
    -- What is kept of the rest differs from `x`, so each stands one place further on.
    have hlater : ∀ more, x ∈ more → (firstOccurrences more xs).Pairwise fun a b =>
        (x :: xs).idxOf a < (x :: xs).idxOf b := by
      intro more hx
      refine (ih more).imp_of_mem fun {a b} ha hb hab => ?_
      have hax : x ≠ a := by
        rintro rfl
        exact ((mem_firstOccurrences ..).mp ha).2 hx
      have hbx : x ≠ b := by
        rintro rfl
        exact ((mem_firstOccurrences ..).mp hb).2 hx
      rw [List.idxOf_cons_ne _ hax,List.idxOf_cons_ne _ hbx]
      omega
    rw [firstOccurrences]
    split
    · rename_i hx
      exact hlater seen hx
    · refine List.pairwise_cons.mpr ⟨fun b hb => ?_,hlater _ (by simp)⟩
      have hbx : x ≠ b := by
        rintro rfl
        exact ((mem_firstOccurrences ..).mp hb).2 (by simp)
      rw [List.idxOf_cons_self,List.idxOf_cons_ne _ hbx]
      omega

theorem perm_firstOccurrences (h : ∀ a, a ∈ xs ↔ a ∈ ys) :
    (firstOccurrences seen xs).Perm (firstOccurrences seen ys) := by
  refine (List.perm_ext_iff_of_nodup (firstOccurrences_nodup ..) (firstOccurrences_nodup ..)).mpr fun a => ?_
  rw [mem_firstOccurrences,mem_firstOccurrences,h]

end FirstOccurrences

theorem mem_uniqueRelationships {documents : List Document} {r : Relationship} :
    r ∈ uniqueRelationships documents ↔ ∃ d ∈ documents, r ∈ d.relationships := by
  rw [uniqueRelationships,mem_firstOccurrences,List.mem_flatMap]
  simp

namespace PlantUml

-- The lines before those of the relationships.
def beforeLinks (documents : List Document) (title : Option String) : List String :=
  "@startuml" :: titleLine title ++ (documents.flatMap Document.types).flatMap entity

theorem opening_entity {e : Entity} {line : String} (h : line ∈ entity e) : opening line ≠ some '"' := by
  rw [entity] at h
  simp only [List.cons_append,List.mem_cons,List.mem_append,List.mem_map,List.not_mem_nil,or_false] at h
  rcases h with rfl | (⟨f,_,rfl⟩ | ⟨m,_,rfl⟩) | rfl
  · intro ho
    have hheader := opening_header e
    rw [ho] at hheader
    simp at hheader
  · simp [opening_indented]
  · simp [opening_indented]
  · decide

theorem opening_beforeLinks {documents : List Document} {title : Option String} {line : String}
    (h : line ∈ beforeLinks documents title) : opening line ≠ some '"' := by
  rw [beforeLinks,List.mem_append,List.mem_cons] at h
  rcases h with (rfl | h) | h
  · decide
  · simp [opening_titleLine title line h]
  · obtain ⟨e,_,he⟩ := List.mem_flatMap.mp h
    exact opening_entity he

theorem ne_relationship {line : String} (h : opening line ≠ some '"') (r : Relationship) :
    line ≠ relationship r := by
  rintro rfl
  exact h (opening_relationship r)

theorem lines_of_text {documents : List Document} {title : Option String}
    (h : ∀ line ∈ lines documents title, '\n' ∉ line.toList) :
    Text.splitAtEach (· = '\n') (render documents title).toList =
      (lines documents title).map String.toList ++ [[]] := by
  rw [render,String.toList_append]
  refine (Text.splitAtEach_cut _ (by decide) _ []).trans (congrArg (· ++ [[]]) ?_)
  exact Text.splitAtEach_intercalate rfl (by simp [lines]) h

theorem relationships_are_drawn_once (documents : List Document) :
    (uniqueRelationships documents).Nodup ∧
    (∀ r, r ∈ uniqueRelationships documents ↔ ∃ d ∈ documents, r ∈ d.relationships) ∧
    ((uniqueRelationships documents).Pairwise fun r s =>
      (documents.flatMap Document.relationships).idxOf r <
        (documents.flatMap Document.relationships).idxOf s) ∧
    (∀ d : Document, d.relationships = uniqueRelationships documents →
      uniqueRelationships [d] = uniqueRelationships documents) ∧
    (∀ others : List Document, others.Perm documents →
      (uniqueRelationships others).Perm (uniqueRelationships documents)) ∧
    ∀ title, ∃ before after,
      lines documents title = before ++ (uniqueRelationships documents).map relationship ++ after ∧
      (∀ line ∈ before ++ after, ∀ r, line ≠ relationship r) ∧
      render documents title = "\n".intercalate (lines documents title) ++ "\n" ∧
      ((∀ line ∈ lines documents title, '\n' ∉ line.toList) →
        Text.splitAtEach (· = '\n') (render documents title).toList =
          (lines documents title).map String.toList ++ [[]]) := by
  refine ⟨firstOccurrences_nodup ..,fun _ => mem_uniqueRelationships,firstOccurrences_pairwise ..,
    fun d hd => ?_,fun others hperm => ?_,
    fun title => ⟨beforeLinks documents title,["@enduml"],rfl,fun line hline => ?_,rfl,lines_of_text⟩⟩
  · rw [uniqueRelationships,List.flatMap_singleton,hd]
    exact firstOccurrences_eq_self (firstOccurrences_nodup ..) (by simp)
  · refine perm_firstOccurrences fun r => ?_
    simp only [List.mem_flatMap,hperm.mem_iff]
  · refine ne_relationship ?_
    rcases List.mem_append.mp hline with h | h
    · exact opening_beforeLinks h
    · obtain rfl := List.mem_singleton.mp h
      decide

section Orchard

def appleGrows : Relationship := ⟨.dependency,"Tree","Apple"⟩

def pearGrows : Relationship := ⟨.dependency,"Tree","Pear"⟩

def treeStands : Relationship := ⟨.composition,"Tree","Orchard"⟩

def orchard : List Document :=
  [⟨[],[treeStands,appleGrows,treeStands]⟩,⟨[],[appleGrows,pearGrows,treeStands]⟩]

end Orchard

theorem relationships_are_drawn_once_orchard :
    uniqueRelationships orchard = [treeStands,appleGrows,pearGrows] ∧
    uniqueRelationships [⟨[],uniqueRelationships orchard⟩] = uniqueRelationships orchard ∧
    (uniqueRelationships orchard.reverse).Perm (uniqueRelationships orchard) ∧
    uniqueRelationships orchard.reverse = [appleGrows,pearGrows,treeStands] ∧
    Text.splitAtEach (· = '\n') (render orchard none).toList =
      (lines orchard none).map String.toList ++ [[]] := by
  obtain ⟨_,_,_,hagain,hperm,htext⟩ := relationships_are_drawn_once orchard
  obtain ⟨_,_,_,_,_,hlines⟩ := htext none
  exact ⟨rfl,hagain ⟨[],_⟩ rfl,hperm _ (List.reverse_perm _),rfl,hlines (by decide)⟩

end PlantUml

end ClassDiagram
