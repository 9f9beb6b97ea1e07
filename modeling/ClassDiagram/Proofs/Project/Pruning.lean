import ClassDiagram.Proofs.Project.Listing
import ClassDiagram.Proofs.Ignore.Coverage

/-!
Leaving directories out of a scan hides nothing, as long as no pattern says what is kept and each pattern that
fits a directory fits what is below it: a file that belongs to the scope then has no ignored directory above it,
and a scan gives the same files as a filter over all of them.
-/

namespace ClassDiagram

open FileSystem

variable {s : Scope}

theorem Scope.ignores_of_leavesOut (hignores : ∀ rule ∈ s.rules, rule.ignores = true)
    (hcovers : ∀ rule ∈ s.rules, rule.CoversBelow) {way names : List String} (hnames : names ≠ [])
    (h : LeavesOut s.omits way names.dropLast) : s.ignores (slashed (way ++ names)) = true := by
  obtain ⟨above,hne,habove,homits⟩ := h
  obtain ⟨between,hbetween⟩ := habove
  have hall : names = above ++ (between ++ [names.getLast hnames]) := by
    rw [← List.append_assoc,hbetween,List.dropLast_append_getLast]
  rw [hall,← List.append_assoc,slashed_append (by simp [hne]) (by simp)]
  exact Ignore.ignored_below hignores hcovers homits _

theorem pruning_hides_nothing {fs : FileSystem} (named : fs.tree.Named) (distinct : fs.tree.Distinct)
    {patterns : List String} (hrules : Ignore.rulesOf patterns = .ok s.rules)
    (hkeeps : ∀ line ∈ patterns, ¬ Ignore.Negated line) (hcovers : ∀ rule ∈ s.rules, rule.CoversBelow)
    (r : Registry) {start : Path} {way : List String} {place : Place} {entries : List (String × Entry)}
    (hstart : fs.locate (s.root.join start) = .ok (place,.dir entries))
    (hway : (s.root.join start).relativeTo? s.root = some { parts := way }) (hnames : ∀ n ∈ way, PathName n) :
    ∃ files, s.scan fs r start = .ok files ∧ files.Pairwise (· < ·) ∧
      ∀ file, file ∈ files ↔ ∃ names, fs.FileAt (place ++ names) ∧ file = slashed (way ++ names) ∧
        s.includes file = true ∧ (r.forFile? file).isSome = true := by
  have hat := at?_of_locate hstart
  have hignores := Ignore.ignores_of_rulesOf hkeeps hrules
  refine ⟨_,Scope.scan_directory hstart hway,Scope.pairwise_scanned named distinct hat hnames,fun file => ?_⟩
  rw [Scope.mem_scanned named distinct hat hnames]
  constructor
  · rintro ⟨names,hfile,heq,hlanguage,hincludes,_⟩
    exact ⟨names,hfile,heq,hincludes,hlanguage⟩
  · rintro ⟨names,hfile,rfl,hincludes,hlanguage⟩
    refine ⟨names,hfile,rfl,hlanguage,hincludes,fun hout => ?_⟩
    have hne : names ≠ [] := by
      rintro rfl
      rw [List.append_nil] at hfile
      exact not_fileAt_dir named hat hfile
    have hignored := Scope.ignores_of_leavesOut hignores hcovers hne hout
    simp [(Scope.includes_iff.mp hincludes).1] at hignored

def sparedScope : Scope where
  root := pathOf []
  rules :=
    let spelled (text : String) : List Ignore.Piece := text.toList.map fun c => .one (.only c)
    [⟨true,spelled "docs/old" ++ [.slashOrEnd]⟩,⟨true,.ancestors :: spelled "target/"⟩,
      ⟨true,.ancestors :: .run .inName :: spelled "Test.java" ++ [.slashOrEnd]⟩]
  wanted := []

theorem sparedScope_rules :
    Ignore.rulesOf ["docs/old","target/","*Test.java"] = .ok sparedScope.rules := by
  cbv

theorem pruning_hides_nothing_docs :
    ∃ files, sparedScope.scan attic .standard { parts := ["docs"] } = .ok files ∧ files.Pairwise (· < ·) ∧
      "docs/B.java" ∈ files ∧ sparedScope.includes "docs/old/A.java" = false ∧ "docs/old/A.java" ∉ files := by
  have hcovers : ∀ rule ∈ sparedScope.rules, rule.CoversBelow := by
    have hsettled : ∀ rule ∈ sparedScope.rules, Ignore.settled rule.pieces = true := by decide +kernel
    exact fun rule hrule => Ignore.Rule.coversBelow_of_settled (hsettled rule hrule)
  have hkeeps : ∀ line ∈ ["docs/old","target/","*Test.java"], ¬ Ignore.Negated line := by
    simp [Ignore.Negated]
  have hway : (sparedScope.root.join { parts := ["docs"] }).relativeTo? sparedScope.root =
      some { parts := ["docs"] } := by cbv
  have hnames : ∀ n ∈ ["docs"], PathName n := by simpa using ⟨by decide,by decide,by decide⟩
  obtain ⟨files,hscan,hsorted,hmem⟩ := pruning_hides_nothing attic_named attic_distinct sparedScope_rules hkeeps
    hcovers .standard (by cbv) hway hnames
  have hout : sparedScope.includes "docs/old/A.java" = false := by decide +kernel
  refine ⟨files,hscan,hsorted,?_,hout,fun hfile => ?_⟩
  · exact (hmem _).mpr ⟨["B.java"],fileAt_file attic_named rfl,rfl,by decide +kernel,by decide +kernel⟩
  · obtain ⟨_,_,_,hincludes,_⟩ := (hmem _).mp hfile
    simp [hout] at hincludes

end ClassDiagram
