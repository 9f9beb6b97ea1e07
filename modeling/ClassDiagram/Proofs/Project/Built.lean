import ClassDiagram.Project.Documents
import ClassDiagram.Proofs.Project.Collected

/-!
What becomes of the files that were collected. Each of them is built or skipped, in its turn, so the two lists
make up the sources. A file that a scan came upon was asked for its language by its path from the root, and is
asked again by its name alone; the answers are the same. So a file is skipped only because it cannot be read,
or because it was given by its own path and is in no known language.
-/

namespace ClassDiagram

section Building

variable {fs : FileSystem} {r : Registry} {o : DiagramOptions} {p : Path} {d : Option Document}
  {paths : List Path} {log : Log}

def documentOf? (fs : FileSystem) (r : Registry) (o : DiagramOptions) (p : Path) : Option Document :=
  (buildFile fs r o p).toOption.bind Prod.fst

theorem documentOf?_eq (h : buildFile fs r o p = .ok (d,log)) : documentOf? fs r o p = d := by
  rw [documentOf?,h]
  rfl

theorem buildFile_skips (h : r.forFile? p.name = none ∨ ∃ fault, fs.read p = .error fault) :
    ∃ log, buildFile fs r o p = .ok (none,log) := by
  rw [buildFile]
  cases hlanguage : r.forFile? p.name with
  | none => exact ⟨_,rfl⟩
  | some l =>
    obtain ⟨fault,hread⟩ := h.resolve_left (by simp [hlanguage])
    rw [hread]
    exact ⟨_,rfl⟩

theorem buildFile_draws {l : Language} {bytes : List UInt8} (hlanguage : r.forFile? p.name = some l)
    (hread : fs.read p = .ok bytes) (h : buildFile fs r o p = .ok (d,log)) :
    ∃ document, d = some document := by
  rw [buildFile,hlanguage,hread] at h
  obtain ⟨⟨unit,parsed⟩,_,h⟩ := bind_eq_ok.mp h
  obtain ⟨rfl,_⟩ := Prod.mk.inj (pure_eq_ok.mp h)
  exact ⟨unit.document o none,rfl⟩

def Buildable (fs : FileSystem) (r : Registry) (o : DiagramOptions) (p : Path) : Prop :=
  ∃ d log, buildFile fs r o p = .ok (d,log)

theorem Buildable.documentOf?_eq_none_iff (h : Buildable fs r o p) :
    documentOf? fs r o p = none ↔ r.forFile? p.name = none ∨ ∃ fault, fs.read p = .error fault := by
  obtain ⟨d,log,hd⟩ := h
  constructor
  · intro hnone
    rw [documentOf?_eq hd] at hnone
    cases hlanguage : r.forFile? p.name with
    | none => exact .inl rfl
    | some l =>
      cases hread : fs.read p with
      | error fault => exact .inr ⟨fault,rfl⟩
      | ok bytes =>
        obtain ⟨document,rfl⟩ := buildFile_draws hlanguage hread hd
        cases hnone
  · intro hskips
    obtain ⟨log,hskipped⟩ := buildFile_skips hskips
    exact documentOf?_eq hskipped

theorem Buildable.built (h : Buildable fs r o p) (hlanguage : (r.forFile? p.name).isSome = true)
    {bytes : List UInt8} (hread : fs.read p = .ok bytes) :
    ∃ document, documentOf? fs r o p = some document := by
  rw [← Option.ne_none_iff_exists',ne_eq,h.documentOf?_eq_none_iff,hread]
  simpa [Option.isSome_iff_ne_none] using hlanguage

theorem buildFiles_eq (h : ∀ p ∈ paths, Buildable fs r o p) :
    ∃ log, buildFiles fs r o paths = .ok (paths.map fun p => (p,documentOf? fs r o p),log) := by
  induction paths with
  | nil => exact ⟨[],rfl⟩
  | cons p paths ih =>
    obtain ⟨⟨d,first,hd⟩,hpaths⟩ := List.forall_mem_cons.mp h
    obtain ⟨more,hrest⟩ := ih hpaths
    refine ⟨first ++ more,bind_eq_ok.mpr ⟨_,hd,bind_eq_ok.mpr ⟨_,hrest,?_⟩⟩⟩
    rw [List.map_cons,documentOf?_eq hd]
    rfl

structure BuildResult.Splits (result : BuildResult) (build : Path → Option Document) (sources : List Path) :
    Prop where
  documents : result.documents = sources.filterMap build
  skipped : result.skipped = (sources.filter fun p => (build p).isNone).map Path.toString

theorem BuildResult.Splits.length {result : BuildResult} {build : Path → Option Document}
    (h : result.Splits build paths) :
    result.documents.length + result.skipped.length = paths.length := by
  have hsome : (fun p => decide ¬ (build p).isSome = true) = fun p => (build p).isNone := by
    funext p
    cases build p <;> rfl
  rw [h.documents,h.skipped,List.length_map,List.length_filterMap_eq_countP,← List.countP_eq_length_filter,
    List.length_eq_countP_add_countP (fun p => (build p).isSome),hsome]

theorem buildDocuments_splits {settings : Settings}
    (h : ∀ p ∈ paths, Buildable fs r settings.diagram p) :
    ∃ result log, buildDocuments fs r settings paths = .ok (result,log) ∧
      result.Splits (documentOf? fs r settings.diagram) paths := by
  obtain ⟨log,hbuilt⟩ := buildFiles_eq h
  rw [buildDocuments_eq]
  refine ⟨_,_,bind_eq_ok.mpr ⟨_,hbuilt,rfl⟩,⟨?_,?_⟩⟩
  · simp only [BuildResult.ofBuilt,List.filterMap_map]
    rfl
  · simp only [BuildResult.ofBuilt,List.filter_map,List.map_map]
    rfl

end Building

-- A file came from the scan of a directory that a path leads to.
def ScannedFor (fs : FileSystem) (r : Registry) (settings : Settings) (p file : Path) : Prop :=
  fs.isDirectory (settings.projectRoot.join p) = true ∧ Yields fs r settings p file

section Scanning

variable {fs : FileSystem} {r : Registry} {settings : Settings} {p file : Path}

theorem ScannedFor.scanned (h : ScannedFor fs r settings p file) :
    ∃ scope way texts text, Scanned fs r (settings.projectRoot.join p) file scope way texts text := by
  obtain ⟨hdirectory,s,log,files,more,_,hfiles,hmem⟩ := h
  rcases of_mem_sourcesAt hfiles hmem with ⟨_,hfile⟩ | hscanned
  · rw [FileSystem.not_isFile_of_isDirectory hdirectory] at hfile
    cases hfile
  · exact hscanned

theorem ScannedFor.language (named : fs.tree.Named) (h : ScannedFor fs r settings p file) :
    (r.forFile? file.name).isSome = true := by
  obtain ⟨scope,way,texts,text,hscanned⟩ := h.scanned
  exact hscanned.language named

theorem Yields.scannedFor_or_given (h : Yields fs r settings p file) :
    ScannedFor fs r settings p file ∨ (file = settings.projectRoot.join p ∧ fs.isFile file = true) := by
  obtain ⟨s,log,files,more,_,hfiles,hmem⟩ := id h
  rcases of_mem_sourcesAt hfiles hmem with ⟨rfl,hfile⟩ | ⟨scope,way,texts,text,hscanned⟩
  · exact .inr ⟨rfl,hfile⟩
  · exact .inl ⟨hscanned.isDirectory,h⟩

end Scanning

theorem scanned_files_are_built {fs : FileSystem} {r : Registry} {settings : Settings}
    {paths sources : List Path} {log : Log} (named : fs.tree.Named)
    (hcollect : collectSources fs r settings paths = .ok (sources,log))
    (hbuild : ∀ q ∈ sources, Buildable fs r settings.diagram q) :
    ∃ result report, buildDocuments fs r settings sources = .ok (result,report) ∧
      result.Splits (documentOf? fs r settings.diagram) sources ∧
      result.documents.length + result.skipped.length = sources.length ∧
      (∀ q ∈ sources, (∃ p ∈ paths, ScannedFor fs r settings p q) → ∀ bytes, fs.read q = .ok bytes →
        ∃ document ∈ result.documents, documentOf? fs r settings.diagram q = some document) ∧
      (∀ q ∈ sources, documentOf? fs r settings.diagram q = none ↔
        r.forFile? q.name = none ∨ ∃ fault, fs.read q = .error fault) ∧
      (∀ text ∈ result.skipped, ∃ q ∈ sources, text = q.toString ∧
        ((∃ fault, fs.read q = .error fault) ∨
          (r.forFile? q.name = none ∧ fs.isFile q = true ∧
            ∃ p ∈ paths, q = settings.projectRoot.join p))) ∧
      (∀ p ∈ paths, ∀ q, ScannedFor fs r settings p q → ∃ scope way texts text,
        Scanned fs r (settings.projectRoot.join p) q scope way texts text ∧
          r.forFile? q.name = r.forFile? text) ∧
      ∀ text, r.forFile? (Path.ofString text).name = r.forFile? text := by
  obtain ⟨result,report,hdocuments,hsplits⟩ := buildDocuments_splits hbuild
  obtain ⟨_,hyields⟩ := collectSources_yields hcollect
  refine ⟨result,report,hdocuments,hsplits,hsplits.length,?_,
    fun q hq => (hbuild q hq).documentOf?_eq_none_iff,?_,?_,r.forFile?_name⟩
  · rintro q hq ⟨p,_,hscanned⟩ bytes hread
    obtain ⟨document,hdocument⟩ := (hbuild q hq).built (hscanned.language named) hread
    refine ⟨document,?_,hdocument⟩
    rw [hsplits.documents]
    exact List.mem_filterMap.mpr ⟨q,hq,hdocument⟩
  · intro text htext
    rw [hsplits.skipped] at htext
    obtain ⟨q,hq,rfl⟩ := List.mem_map.mp htext
    obtain ⟨hsource,hnone⟩ := List.mem_filter.mp hq
    refine ⟨q,hsource,rfl,?_⟩
    have hskipped := (hbuild q hsource).documentOf?_eq_none_iff.mp (Option.isNone_iff_eq_none.mp hnone)
    rcases hskipped with hunknown | hfault
    · obtain ⟨p,hp,hyield⟩ := hyields q hsource
      rcases hyield.scannedFor_or_given with hscanned | ⟨hgiven,hfile⟩
      · have hknown := hscanned.language named
        rw [hunknown] at hknown
        cases hknown
      · exact .inr ⟨hunknown,hfile,p,hp,hgiven⟩
    · exact .inl hfault
  · intro p _ q hscanned
    obtain ⟨scope,way,texts,text,hfound⟩ := hscanned.scanned
    exact ⟨scope,way,texts,text,hfound,hfound.forFile?_eq named⟩

def workbench : FileSystem where
  tree := .dir [("notes.txt",.file []),
    ("src",.dir [("A.JAVA",.file []),("Lost.java",.link "nowhere")])]

def workbenchSettings : Settings where
  projectRoot := FileSystem.pathOf []
  workers := 4

def workbenchSources : List Path :=
  [FileSystem.pathOf ["src","A.JAVA"],FileSystem.pathOf ["src","Lost.java"],FileSystem.pathOf ["notes.txt"]]

theorem workbench_named : workbench.tree.Named := by
  simp only [workbench,Entry.Named,Entry.NamedAll]
  decide

theorem scanned_files_are_built_workbench :
    workbench.tree.Named ∧
    (∃ log, collectSources workbench .standard workbenchSettings
      [{ parts := ["src"] },{ parts := ["notes.txt"] }] = .ok (workbenchSources,log)) ∧
    (∀ q ∈ workbenchSources, Buildable workbench .standard workbenchSettings.diagram q) ∧
    ∃ result report, buildDocuments workbench .standard workbenchSettings workbenchSources =
        .ok (result,report) ∧
      result.documents = [{}] ∧ result.skipped = ["/src/Lost.java","/notes.txt"] ∧
      result.documents.length + result.skipped.length = 3 := by
  have hcollect : collectSources workbench .standard workbenchSettings
      [{ parts := ["src"] },{ parts := ["notes.txt"] }] = .ok (workbenchSources,[]) := by cbv
  have hlost : workbench.read (FileSystem.pathOf ["src","Lost.java"]) = .error .missing := by cbv
  have hnotes : Registry.standard.forFile? (FileSystem.pathOf ["notes.txt"]).name = none := by cbv
  have hdrawn : buildFile workbench .standard workbenchSettings.diagram (FileSystem.pathOf ["src","A.JAVA"]) =
      .ok (some {},[.parsed "/src/A.JAVA" 0]) := by cbv
  obtain ⟨lostLog,hlostBuilt⟩ := buildFile_skips (o := workbenchSettings.diagram) (.inr ⟨_,hlost⟩)
  obtain ⟨notesLog,hnotesBuilt⟩ := buildFile_skips (o := workbenchSettings.diagram) (.inl hnotes)
  have hbuild : ∀ q ∈ workbenchSources, Buildable workbench .standard workbenchSettings.diagram q := by
    simp only [workbenchSources,List.forall_mem_cons]
    exact ⟨⟨_,_,hdrawn⟩,⟨_,_,hlostBuilt⟩,⟨_,_,hnotesBuilt⟩,by simp⟩
  obtain ⟨result,report,hdocuments,hsplits,hlength,_⟩ :=
    scanned_files_are_built workbench_named hcollect hbuild
  refine ⟨workbench_named,⟨[],hcollect⟩,hbuild,result,report,hdocuments,?_,?_,hlength⟩
  · rw [hsplits.documents]
    simp [workbenchSources,documentOf?_eq hdrawn,documentOf?_eq hlostBuilt,documentOf?_eq hnotesBuilt]
  · have htexts : (FileSystem.pathOf ["src","Lost.java"]).toString = "/src/Lost.java" ∧
        (FileSystem.pathOf ["notes.txt"]).toString = "/notes.txt" := by decide
    rw [hsplits.skipped]
    simp [workbenchSources,documentOf?_eq hdrawn,documentOf?_eq hlostBuilt,documentOf?_eq hnotesBuilt,htexts]

end ClassDiagram
