import ClassDiagram.Diagram.Record
import ClassDiagram.PlantUml
import Mathlib.Data.List.Basic
import Mathlib.Data.List.Induction

/-!
The import table of a source file. Binding the imports one after another gives the table that lists each
explicitly imported name once, where it occurs first, with the qualified name of its last import.
-/

namespace ClassDiagram

section FirstOccurrences

variable {α : Type} [DecidableEq α]

theorem mem_firstOccurrences (seen xs : List α) (a : α) :
    a ∈ firstOccurrences seen xs ↔ a ∈ xs ∧ a ∉ seen := by
  induction xs generalizing seen with
  | nil => simp [firstOccurrences]
  | cons x xs ih =>
    rw [firstOccurrences]
    split
    · rename_i hx
      rw [ih,List.mem_cons]
      constructor
      · rintro ⟨ha,hs⟩
        exact ⟨Or.inr ha,hs⟩
      · rintro ⟨rfl | ha,hs⟩
        · exact absurd hx hs
        · exact ⟨ha,hs⟩
    · rename_i hx
      simp only [List.mem_cons,ih]
      by_cases hax : a = x
      · subst hax
        simp [hx]
      · simp [hax]

theorem firstOccurrences_nodup (seen xs : List α) : (firstOccurrences seen xs).Nodup := by
  induction xs generalizing seen with
  | nil => simp [firstOccurrences]
  | cons x xs ih =>
    rw [firstOccurrences]
    split
    · exact ih seen
    · refine List.nodup_cons.mpr ⟨?_,ih (x :: seen)⟩
      rw [mem_firstOccurrences]
      simp

theorem firstOccurrences_append_singleton (seen xs : List α) (a : α) :
    firstOccurrences seen (xs ++ [a]) =
      firstOccurrences seen xs ++ if a ∈ xs ∨ a ∈ seen then [] else [a] := by
  induction xs generalizing seen with
  | nil => by_cases ha : a ∈ seen <;> simp [firstOccurrences,ha]
  | cons x xs ih =>
    rw [List.cons_append,firstOccurrences,firstOccurrences]
    split
    · rename_i hx
      rw [ih]
      by_cases hax : a = x
      · subst hax
        simp [hx]
      · simp [hax]
    · rw [ih,List.cons_append]
      simp only [List.mem_cons,or_assoc,or_left_comm]

end FirstOccurrences

namespace ImportTable

def names (table : ImportTable) : List String := table.map Prod.fst

theorem names_bind (name qualified : String) (table : ImportTable) :
    names (bind name qualified table) =
      names table ++ if name ∈ names table then [] else [name] := by
  induction table with
  | nil => simp [bind,names]
  | cons b table ih =>
    obtain ⟨n,q⟩ := b
    by_cases hn : n = name
    · simp [bind,names,hn]
    · have hn' : name ≠ n := fun h => hn h.symm
      have hmem : name ∈ names ((n,q) :: table) ↔ name ∈ names table := by simp [names,hn']
      rw [bind,if_neg hn,if_congr hmem rfl rfl]
      exact congrArg (List.cons n) ih

theorem eq_filterMap_names {table : ImportTable} (h : (names table).Nodup) :
    (names table).filterMap (fun name => (get? table name).map (name,·)) = table := by
  induction table with
  | nil => rfl
  | cons b table ih =>
    obtain ⟨n,q⟩ := b
    obtain ⟨hn,ht⟩ := List.nodup_cons.mp h
    have hrest : ∀ m ∈ names table, get? ((n,q) :: table) m = get? table m := by
      intro m hm
      have hmn : (m == n) = false := by
        rw [beq_eq_false_iff_ne]
        rintro rfl
        exact hn hm
      simp [get?,List.lookup_cons,hmn]
    have hself : get? ((n,q) :: table) n = some q := by simp [get?]
    change ((n :: names table).filterMap _) = _
    rw [List.filterMap_cons,hself]
    refine congrArg (List.cons (n,q)) (Eq.trans ?_ (ih ht))
    exact List.filterMap_congr fun m hm => by rw [hrest m hm]

end ImportTable

def lastImport? (imports : List Import) (name : String) : Option String :=
  (imports.filter fun i => !i.isWildcard && i.name == name).getLast?.map Import.qualifiedName

def importedNames (imports : List Import) : List String :=
  firstOccurrences [] ((imports.filter fun i => !i.isWildcard).map Import.name)

def importTable (imports : List Import) : ImportTable :=
  (importedNames imports).filterMap fun name => (lastImport? imports name).map (name,·)

def bindImports (imports : List Import) : ImportTable :=
  imports.foldl
    (fun table i => if i.isWildcard then table else ImportTable.bind i.name i.qualifiedName table) []

theorem bindImports_append (imports : List Import) (i : Import) :
    bindImports (imports ++ [i]) =
      if i.isWildcard then bindImports imports
      else ImportTable.bind i.name i.qualifiedName (bindImports imports) := by
  simp [bindImports]

theorem importedNames_append (imports : List Import) (i : Import) :
    importedNames (imports ++ [i]) = importedNames imports ++
      if i.isWildcard ∨ i.name ∈ importedNames imports then [] else [i.name] := by
  by_cases hw : i.isWildcard
  · simp [importedNames,hw]
  · have hw' : i.isWildcard = false := by simpa using hw
    simp only [importedNames,List.filter_append,List.map_append]
    rw [show (List.filter (fun i => !i.isWildcard) [i]).map Import.name = [i.name] by simp [hw'],
      firstOccurrences_append_singleton]
    simp only [mem_firstOccurrences,hw',List.not_mem_nil,not_false_eq_true,and_true,or_false,
      Bool.false_eq_true,false_or]

theorem lastImport?_append (imports : List Import) (i : Import) (name : String) :
    lastImport? (imports ++ [i]) name =
      if i.isWildcard = false ∧ name = i.name then some i.qualifiedName
      else lastImport? imports name := by
  by_cases h : i.isWildcard = false ∧ name = i.name
  · obtain ⟨hw,rfl⟩ := h
    simp [lastImport?,hw]
  · have hi : (!i.isWildcard && i.name == name) = false := by
      by_contra hc
      have hc' : i.isWildcard = false ∧ i.name = name := by simpa using hc
      exact h ⟨hc'.1,hc'.2.symm⟩
    rw [if_neg h]
    simp [lastImport?,hi]

theorem lastImport?_append_of_unbound {later : List Import} {name : String}
    (h : ∀ i ∈ later, i.isWildcard = false → i.name ≠ name) (imports : List Import) :
    lastImport? (imports ++ later) name = lastImport? imports name := by
  have hnone : later.filter (fun i => !i.isWildcard && i.name == name) = [] := by
    refine List.filter_eq_nil_iff.mpr fun i hi hbound => ?_
    have hboth : i.isWildcard = false ∧ i.name = name := by simpa using hbound
    exact h i hi hboth.1 hboth.2
  rw [lastImport?,lastImport?,List.filter_append,hnone,List.append_nil]

theorem lastImport?_insert {i : Import} {name : String} (h : i.isWildcard = false → i.name ≠ name)
    (earlier later : List Import) :
    lastImport? (earlier ++ i :: later) name = lastImport? (earlier ++ later) name := by
  have hi : (!i.isWildcard && i.name == name) = false := by
    cases hw : i.isWildcard with
    | true => rfl
    | false => simpa using h hw
  rw [lastImport?,lastImport?,List.filter_append,List.filter_append,List.filter_cons_of_neg (by simp [hi])]

theorem names_bindImports (imports : List Import) :
    (bindImports imports).names = importedNames imports := by
  induction imports using List.reverseRecOn with
  | nil => rfl
  | append_singleton imports i ih =>
    rw [bindImports_append,importedNames_append,← ih]
    by_cases hw : i.isWildcard
    · simp [hw]
    · simp [hw,ImportTable.names_bind]

theorem get?_bindImports (imports : List Import) (name : String) :
    (bindImports imports).get? name = lastImport? imports name := by
  induction imports using List.reverseRecOn with
  | nil => rfl
  | append_singleton imports i ih =>
    rw [bindImports_append,lastImport?_append]
    cases hw : i.isWildcard with
    | true => simpa using ih
    | false => simp [ih]

theorem bindImports_eq_importTable (imports : List Import) :
    bindImports imports = importTable imports := by
  have hnodup : (bindImports imports).names.Nodup := by
    rw [names_bindImports]
    exact firstOccurrences_nodup _ _
  rw [← ImportTable.eq_filterMap_names hnodup,names_bindImports,importTable]
  simp only [get?_bindImports]

end ClassDiagram
