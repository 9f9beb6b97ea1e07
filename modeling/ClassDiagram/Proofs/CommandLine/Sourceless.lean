import ClassDiagram.Proofs.CommandLine.Agreement
import ClassDiagram.Proofs.Project.Collected

/-!
Runs that find no source. A run fails exactly when nothing is collected, and what is collected is in a known
language, except for files that were given by their own paths. So when these are in a known language too, a run
that comes upon no source fails, and one that succeeds has a source. A file that was given and is in no known
language is collected all the same: the run then succeeds, with nothing to show.
-/

namespace ClassDiagram

def InKnownLanguage (p : Path) : Prop := (Registry.standard.forFile? p.name).isSome = true

instance (p : Path) : Decidable (InKnownLanguage p) := inferInstanceAs (Decidable (_ = true))

section Building

variable {fs : FileSystem} {options : DiagramOptions} {log : Log}

theorem buildFile_unknown {p : Path} (hp : ¬ InKnownLanguage p) :
    buildFile fs .standard options p = .ok (none,[.unsupported p.toString]) := by
  have hnone : Registry.standard.forFile? p.name = none := by simpa [InKnownLanguage] using hp
  rw [buildFile,hnone]

theorem buildFiles_unknown {paths : List Path} {built : List (Path × Option Document)}
    (hpaths : ∀ p ∈ paths, ¬ InKnownLanguage p)
    (h : buildFiles fs .standard options paths = .ok (built,log)) : ∀ x ∈ built, x.2 = none := by
  induction paths generalizing built log with
  | nil =>
    obtain ⟨rfl,_⟩ := Prod.mk.inj (Except.ok.inj h)
    simp
  | cons p paths ih =>
    rw [buildFiles,buildFile_unknown (hpaths p (by simp))] at h
    obtain ⟨_,hfirst,h⟩ := bind_eq_ok.mp h
    obtain rfl := Except.ok.inj hfirst
    obtain ⟨⟨rest,more⟩,hrest,h⟩ := bind_eq_ok.mp h
    obtain ⟨rfl,_⟩ := Prod.mk.inj (pure_eq_ok.mp h)
    exact List.forall_mem_cons.mpr ⟨rfl,ih (fun q hq => hpaths q (List.mem_cons_of_mem _ hq)) hrest⟩

theorem buildDocuments_unknown {settings : Settings} {sources : List Path} {result : BuildResult}
    (hsources : ∀ p ∈ sources, ¬ InKnownLanguage p)
    (h : buildDocuments fs .standard settings sources = .ok (result,log)) : result.documents = [] := by
  rw [buildDocuments_eq] at h
  obtain ⟨⟨built,first⟩,hbuilt,h⟩ := bind_eq_ok.mp h
  obtain ⟨rfl,_⟩ := Prod.mk.inj (pure_eq_ok.mp h)
  exact List.filterMap_eq_nil_iff.mpr (buildFiles_unknown hsources hbuilt)

end Building

namespace CommandLine

structure Outcome.Failed (out : Outcome) : Prop where
  exitCode : out.exitCode = 1
  output : out.output = ""
  written : out.written = none

variable {r : Request} {fs : FileSystem} {env : Environment} {out : Outcome}

theorem Request.finish_exitCode {documents : List Document} {log : Log}
    (h : r.finish fs documents log = .ok out) : out.exitCode = 0 := by
  rw [finish] at h
  split at h
  · exact Except.ok.inj h ▸ rfl
  · dsimp only at h
    split at h
    · exact Except.ok.inj h ▸ rfl
    · split at h
      · cases h
      · exact Except.ok.inj h ▸ rfl

theorem Request.fails_or_finishes (h : r.run fs env = .ok out) :
    ∃ s sources log, Settings.load fs env [] = .ok s ∧
      collectSources fs .standard (r.settings s) r.paths = .ok (sources,log) ∧
      ((sources = [] ∧ out.Failed) ∨ (sources ≠ [] ∧ out.exitCode = 0)) ∧
      (sources ≠ [] → (∀ file ∈ sources, ¬ InKnownLanguage file) →
        ∃ log, r.finish fs [] log = .ok out) := by
  obtain ⟨s,sources,collected,hload,hcollect,⟨hnil,rfl⟩ | ⟨hne,result,built,hbuild,hfinish⟩⟩ := run_eq_ok h
  · exact ⟨s,sources,collected,hload,hcollect,.inl ⟨hnil,rfl,rfl,rfl⟩,fun hne => absurd hnil hne⟩
  · refine ⟨s,sources,collected,hload,hcollect,.inr ⟨hne,finish_exitCode hfinish⟩,fun _ hunknown => ?_⟩
    rw [buildDocuments_unknown hunknown hbuild] at hfinish
    exact ⟨_,hfinish⟩

theorem sourceless_run_fails (named : fs.tree.Named) (h : r.run fs env = .ok out) :
    ∃ s sources log, Settings.load fs env [] = .ok s ∧
      collectSources fs .standard (r.settings s) r.paths = .ok (sources,log) ∧
      let yields := Yields fs .standard (r.settings s)
      ((sources = [] ∧ out.Failed) ∨ (sources ≠ [] ∧ out.exitCode = 0)) ∧
      (sources = [] ↔ ∀ p ∈ r.paths, ∀ file, ¬ yields p file) ∧
      (∀ file ∈ sources, ∃ p ∈ r.paths, yields p file) ∧
      (∀ p ∈ r.paths, ∀ file, yields p file →
        (fs.tree.Plain → fs.isFile file = true) ∧
        (InKnownLanguage file ∨ (file = s.projectRoot.join p ∧ fs.isFile file = true))) ∧
      (sources ≠ [] → (∀ file ∈ sources, ¬ InKnownLanguage file) →
        ∃ log, r.finish fs [] log = .ok out) ∧
      ((∀ p ∈ r.paths, fs.isFile (s.projectRoot.join p) = true →
          InKnownLanguage (s.projectRoot.join p)) →
        ((∀ p ∈ r.paths, ∀ file, yields p file → ¬ InKnownLanguage file) → out.Failed) ∧
        (fs.tree.Plain → (∀ p ∈ r.paths, ∀ file, yields p file → fs.isFile file = true →
          ¬ InKnownLanguage file) → out.Failed) ∧
        (out.exitCode = 0 → ∃ file ∈ sources, InKnownLanguage file)) := by
  obtain ⟨s,sources,log,hload,hcollect,hends,hempty⟩ := Request.fails_or_finishes h
  obtain ⟨hnil,hyielded⟩ := collectSources_yields hcollect
  refine ⟨s,sources,log,hload,hcollect,?_⟩
  intro yields
  have hfails : (∀ p ∈ r.paths, ∀ file, ¬ yields p file) → out.Failed := by
    intro hnone
    rcases hends with ⟨_,hfailed⟩ | ⟨hne,_⟩
    · exact hfailed
    · exact absurd (hnil.mpr hnone) hne
  refine ⟨hends,hnil,hyielded,fun p _ file hy => ⟨fun plain => hy.isFile plain,hy.language named⟩,hempty,?_⟩
  intro hgiven
  have hknown : ∀ p ∈ r.paths, ∀ file, yields p file → InKnownLanguage file := by
    intro p hp file hy
    rcases hy.language named with hlanguage | ⟨rfl,hfile⟩
    · exact hlanguage
    · exact hgiven p hp hfile
  refine ⟨fun hnone => hfails fun p hp file hy => hnone p hp file hy (hknown p hp file hy),
    fun plain hnone => hfails fun p hp file hy => ?_,fun hcode => ?_⟩
  · exact hnone p hp file hy (hy.isFile plain) (hknown p hp file hy)
  · rcases hends with ⟨_,hfailed⟩ | ⟨hne,_⟩
    · rw [hfailed.exitCode] at hcode
      cases hcode
    · obtain ⟨file,hfile⟩ := List.exists_mem_of_ne_nil sources hne
      obtain ⟨p,hp,hy⟩ := hyielded file hfile
      exact ⟨file,hfile,hknown p hp file hy⟩

def desk : FileSystem where
  tree := .dir [("notes.txt",.file []),
    ("src",.dir [("A.java",.file "class A\x7b\x7d".toUTF8.toList),("plan.txt",.file [])])]

def deskListing : Request where
  command := .types
  paths := [{ root := "/",parts := ["src"] },{ root := "/",parts := ["gone"] }]

theorem desk_named : desk.tree.Named := by
  simp only [desk,Entry.Named,Entry.NamedAll]
  decide

theorem sourceless_run_fails_desk :
    desk.tree.Named ∧ ∃ out, deskListing.run desk [] = .ok out ∧ out.exitCode = 0 ∧
      out.output = "class A\n" ∧
      ∃ s sources log, Settings.load desk [] [] = .ok s ∧
        collectSources desk .standard (deskListing.settings s) deskListing.paths = .ok (sources,log) ∧
        ∃ file ∈ sources, InKnownLanguage file := by
  have hvalues : (deskListing.run desk []).toOption.map (fun out => (out.exitCode,out.output)) =
      some (0,"class A\n") := by cbv
  obtain ⟨out,hrun,hout⟩ := toOption_map_eq_some.mp hvalues
  obtain ⟨hcode,houtput⟩ := Prod.mk.inj hout
  obtain ⟨s,sources,log,hload,hcollect,_,_,_,_,_,hclaim⟩ := sourceless_run_fails desk_named hrun
  have hgiven : ∀ p ∈ deskListing.paths, desk.isFile (s.projectRoot.join p) = true →
      InKnownLanguage (s.projectRoot.join p) := by
    intro p hp hfile
    simp only [deskListing,List.mem_cons,List.not_mem_nil,or_false] at hp
    have hsrc : desk.isFile { root := "/",parts := ["src"] } = false := by cbv
    have hgone : desk.isFile { root := "/",parts := ["gone"] } = false := by cbv
    rcases hp with rfl | rfl
    · rw [Path.join_absolute _ rfl,hsrc] at hfile
      cases hfile
    · rw [Path.join_absolute _ rfl,hgone] at hfile
      cases hfile
  exact ⟨desk_named,out,hrun,hcode,houtput,s,sources,log,hload,hcollect,(hclaim hgiven).2.2 hcode⟩

def notesDrawing : Request where
  command := .render
  paths := [{ root := "/",parts := ["notes.txt"] }]

theorem unknown_file_draws_nothing :
    (∃ out, notesDrawing.run desk [] = .ok out ∧ out.exitCode = 0 ∧
      out.output = "@startuml\n@enduml\n") ∧
    ∀ s, Settings.load desk [] [] = .ok s → ∀ p ∈ notesDrawing.paths, ∀ file,
      Yields desk .standard (notesDrawing.settings s) p file → ¬ InKnownLanguage file := by
  have hvalues : (notesDrawing.run desk []).toOption.map (fun out => (out.exitCode,out.output)) =
      some (0,"@startuml\n@enduml\n") := by cbv
  obtain ⟨out,hrun,hout⟩ := toOption_map_eq_some.mp hvalues
  refine ⟨⟨out,hrun,(Prod.mk.inj hout).1,(Prod.mk.inj hout).2⟩,fun s _ p hp file hy => ?_⟩
  obtain rfl := List.mem_singleton.mp hp
  have hroot : (notesDrawing.settings s).projectRoot.join { root := "/",parts := ["notes.txt"] } =
      { root := "/",parts := ["notes.txt"] } := Path.join_absolute _ rfl
  have hnotes : desk.isFile { root := "/",parts := ["notes.txt"] } = true := by cbv
  rw [hy.of_isFile (hroot ▸ hnotes),hroot]
  decide

end CommandLine

end ClassDiagram
