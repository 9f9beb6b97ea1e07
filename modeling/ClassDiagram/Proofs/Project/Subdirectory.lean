import ClassDiagram.Project.Sources
import ClassDiagram.Proofs.Outcome
import ClassDiagram.Proofs.Project.Ways
import Mathlib

/-!
What a directory of a project stands for, in a tree without links. The files that are collected for it are
those of the whole project that lie under it, in their order, when no directory on the way to it is left out.
When one is, the whole project has no file under it, but the directory itself is scanned all the same.
-/

namespace ClassDiagram

namespace FileSystem

theorem pathOf_join (base way : Place) : (pathOf base).join { parts := way } = pathOf (base ++ way) := by
  simp [pathOf,Path.join,Path.isAbsolute]

theorem isUnder_pathOf (base place : Place) :
    (pathOf place).isUnder (pathOf base) = base.isPrefixOf place := by
  simp [pathOf,Path.isUnder]

theorem relativeTo?_pathOf (base way : Place) :
    (pathOf (base ++ way)).relativeTo? (pathOf base) = some { parts := way } := by
  have hunder : base.isPrefixOf (base ++ way) = true :=
    List.isPrefixOf_iff_prefix.mpr (List.prefix_append base way)
  rw [Path.relativeTo?,isUnder_pathOf,if_pos hunder]
  simp [pathOf]

structure LeadsTo (fs : FileSystem) (p : Path) (place : Place) : Prop where
  isDirectory : fs.isDirectory p = true
  resolves : fs.resolve p = .ok (pathOf place)

def liesUnder (fs : FileSystem) (directory p : Path) : Bool :=
  match fs.resolve directory, fs.resolve p with
  | .ok d, .ok q => q.isUnder d
  | _, _ => false

variable {fs : FileSystem} {p : Path} {place : Place}

theorem landing_of_resolve (plain : fs.tree.Plain) (h : fs.resolve p = .ok (pathOf place)) :
    fs.landing p = place := by
  rw [resolve_eq plain] at h
  exact congrArg Path.parts (Except.ok.inj h)

theorem LeadsTo.entries (plain : fs.tree.Plain) (h : fs.LeadsTo p place) :
    ∃ entries, fs.tree.at? place = some (.dir entries) := by
  have hentries := directory_at_landing plain h.isDirectory
  rwa [landing_of_resolve plain h.resolves] at hentries

end FileSystem

open FileSystem

theorem filter_mergeSort {α : Type} {le : α → α → Bool} {l : List α}
    (trans : ∀ a b c, le a b = true → le b c = true → le a c = true)
    (total : ∀ a b, (le a b || le b a) = true)
    (antisymm : ∀ a ∈ l, ∀ b ∈ l, le a b = true → le b a = true → a = b) (p : α → Bool) :
    (l.mergeSort le).filter p = (l.filter p).mergeSort le := by
  have hperm : ((l.mergeSort le).filter p).Perm ((l.filter p).mergeSort le) :=
    ((List.mergeSort_perm l le).filter p).trans (List.mergeSort_perm (l.filter p) le).symm
  refine List.Perm.eq_of_pairwise ?_ ((List.pairwise_mergeSort trans total l).filter p)
    (List.pairwise_mergeSort trans total (l.filter p)) hperm
  intro a b ha hb hab hba
  have hl : ∀ {x : α}, x ∈ (l.mergeSort le).filter p → x ∈ l := fun hx =>
    List.mem_mergeSort.mp (List.mem_filter.mp hx).1
  exact antisymm a (hl ha) b (hl (hperm.mem_iff.mpr hb)) hab hba

namespace Scope

-- Whether a directory is left out of a scan that comes to it from above.
def omits (s : Scope) (way : List String) : Bool := s.ignores (slashed way ++ "/")

def waysBelow (s : Scope) (r : Registry) (way : List String) (entries : List (String × Entry)) :
    List (List String) :=
  ((waysAmong s.omits way entries).filter fun w => s.yields r (slashed w)).mergeSort
    fun v w => decide (slashed v ≤ slashed w)

variable {s : Scope} {r : Registry} {way w : List String} {entries inner : List (String × Entry)}

theorem mem_waysAmong_of_mem_waysBelow (h : w ∈ s.waysBelow r way entries) :
    w ∈ waysAmong s.omits way entries := by
  rw [waysBelow,List.mem_mergeSort] at h
  exact (List.mem_filter.mp h).1

theorem nodup_waysBelow (hplain : (Entry.dir entries).Plain) : (s.waysBelow r way entries).Nodup := by
  rw [waysBelow,(List.mergeSort_perm _ _).nodup_iff]
  exact (nodup_waysAmong hplain).filter _

-- The order is that of the texts, and two ways with one text are the same way.
theorem filter_waysBelow (hplain : Entry.PlainAll entries) (through : List String → Bool) :
    (s.waysBelow r [] entries).filter through =
      (((waysAmong s.omits [] entries).filter through).filter
        fun w => s.yields r (slashed w)).mergeSort fun v w => decide (slashed v ≤ slashed w) := by
  have hproper : ∀ v ∈ waysAmong s.omits [] entries, ∀ n ∈ v, ProperName n := fun v hv =>
    proper_of_mem_waysAmong hplain (by simp) hv
  rw [waysBelow,filter_mergeSort,List.filter_filter,List.filter_filter]
  · simp only [Bool.and_comm]
  · intro a b c hab hbc
    simp only [decide_eq_true_eq] at hab hbc ⊢
    exact String.le_trans hab hbc
  · intro a b
    simpa using String.le_total (slashed a) (slashed b)
  · intro a ha b hb hab hba
    have ha := hproper a (List.mem_filter.mp ha).1
    have hb := hproper b (List.mem_filter.mp hb).1
    simp only [decide_eq_true_eq] at hab hba
    exact slashed_injective ha hb (String.le_antisymm hab hba)

theorem waysBelow_through (hplain : (Entry.dir entries).Plain)
    (hat : (Entry.dir entries).at? way = some (.dir inner)) :
    (¬ LeavesOut s.omits [] way →
      (s.waysBelow r [] entries).filter way.isPrefixOf = s.waysBelow r way inner) ∧
    (LeavesOut s.omits [] way → (s.waysBelow r [] entries).filter way.isPrefixOf = []) := by
  obtain ⟨hin,hout⟩ := waysAmong_through s.omits [] hplain hat
  simp only [List.nil_append] at hin hout
  rw [Entry.Plain] at hplain
  rw [filter_waysBelow hplain.2]
  refine ⟨fun h => ?_,fun h => ?_⟩
  · rw [hin h]
    rfl
  · rw [hout h]
    simp

theorem text_of_way (way : List String) :
    (if way = [] then "" else Path.toString { parts := way }) = slashed way := by
  split
  · rename_i hnil
    rw [hnil]
    rfl
  · rename_i hne
    simp [Path.toString,hne,slashed]

theorem scan_eq {fs : FileSystem} (plain : fs.tree.Plain) {base : Place} (hroot : s.root = pathOf base)
    (hat : fs.tree.at? (base ++ way) = some (.dir entries)) :
    s.scan fs r { parts := way } = .ok ((s.waysBelow r way entries).map slashed) := by
  obtain ⟨hentries,hnames⟩ := plain.at? hat
  rw [Entry.Plain] at hentries
  have hway : ∀ n ∈ way, ProperName n := fun n hn => hnames n (List.mem_append_right _ hn)
  rw [scan,hroot,pathOf_join,locate_pathOf plain hat,relativeTo?_pathOf]
  dsimp only
  rw [text_of_way,filesAmong_eq s.ignores _ _ hentries.2 hway,sortPaths,waysBelow,List.filter_map]
  refine congrArg Except.ok (Eq.symm ?_)
  exact List.map_mergeSort fun v _ w _ => rfl

theorem ofRoot_root {fs : FileSystem} {directory : Path} {options : ScanOptions} {log : Log}
    (h : ofRoot fs directory options = .ok (s,log)) : fs.resolve directory = .ok s.root := by
  rw [ofRoot] at h
  obtain ⟨root,hroot,h⟩ := bind_eq_ok.mp h
  obtain ⟨rules,_,h⟩ := bind_eq_ok.mp h
  obtain ⟨rfl,_⟩ := Prod.mk.inj (pure_eq_ok.mp h)
  exact mapError_eq_ok.mp hroot

end Scope

-- A source is written with the directory as it was given.
def sourceAlong (directory : Path) (way w : List String) : Path :=
  directory.join { parts := w.drop way.length }

section Collecting

variable {fs : FileSystem} {r : Registry} {s : Scope} {p : Path} {base way : Place}
  {entries : List (String × Entry)}

theorem addAll_of_nodup (plain : fs.tree.Plain) {c : Collection} {files : List Path}
    (h : (c.keys ++ files.map fun p => pathOf (fs.landing p)).Nodup) :
    Collection.addAll fs c files = .ok
      { c with
        sources := c.sources ++ files
        keys := c.keys ++ files.map fun p => pathOf (fs.landing p) } := by
  induction files generalizing c with
  | nil => simp [Collection.addAll]
  | cons p files ih =>
    have hfresh : pathOf (fs.landing p) ∉ c.keys := by
      intro hold
      exact (List.nodup_append.mp h).2.2 _ hold _ (by simp) rfl
    have hadd : Collection.add fs c p = .ok
        { c with sources := c.sources ++ [p], keys := c.keys ++ [pathOf (fs.landing p)] } := by
      rw [Collection.add]
      refine bind_eq_ok.mpr ⟨_,mapError_eq_ok.mpr (resolve_eq plain p),?_⟩
      rw [if_neg hfresh]
      rfl
    rw [Collection.addAll,hadd]
    refine (ih (by simpa using h)).trans ?_
    simp

theorem way_of_mem_waysBelow (plain : fs.tree.Plain) (hat : fs.tree.at? (base ++ way) = some (.dir entries))
    {w : List String} (hw : w ∈ s.waysBelow r way entries) : way <+: w ∧ ∀ n ∈ w, ProperName n := by
  obtain ⟨hentries,hnames⟩ := plain.at? hat
  rw [Entry.Plain] at hentries
  have hway : ∀ n ∈ way, ProperName n := fun n hn => hnames n (List.mem_append_right _ hn)
  have hmem := Scope.mem_waysAmong_of_mem_waysBelow hw
  exact ⟨prefix_of_mem_waysAmong hmem,proper_of_mem_waysAmong hentries.2 hway hmem⟩

theorem scanWithin_eq (plain : fs.tree.Plain) (hroot : s.root = pathOf base)
    (hat : fs.tree.at? (base ++ way) = some (.dir entries)) :
    scanWithin fs r s p { parts := way } =
      .ok ((s.waysBelow r way entries).map (sourceAlong p way)) := by
  rw [scanWithin,s.scan_eq plain hroot hat]
  refine congrArg Except.ok ?_
  rw [List.map_map]
  refine List.map_congr_left fun w hw => ?_
  obtain ⟨hbegins,hproper⟩ := way_of_mem_waysBelow plain hat hw
  simp [ofString_slashed hproper,Path.relativeTo?,Path.isUnder,hbegins,sourceAlong]

theorem landing_source (plain : fs.tree.Plain) (hat : fs.tree.at? (base ++ way) = some (.dir entries))
    (hp : fs.landing p = base ++ way) {w : List String} (hw : w ∈ s.waysBelow r way entries) :
    fs.landing (sourceAlong p way w) = base ++ w := by
  obtain ⟨hbegins,hproper⟩ := way_of_mem_waysBelow plain hat hw
  have hnames : ∀ n ∈ w.drop way.length, n ≠ ".." := fun n hn =>
    (hproper n (List.mem_of_mem_drop hn)).ne_dots
  obtain ⟨rest,rfl⟩ := hbegins
  rw [sourceAlong,landing_join fs p hnames,hp]
  simp

theorem collectSources_directory (plain : fs.tree.Plain) {settings : Settings} {log : Log} {p : Path}
    (hscope : Scope.ofRoot fs settings.projectRoot settings.scan = .ok (s,log))
    (hroot : s.root = pathOf base) (hp : fs.LeadsTo (settings.projectRoot.join p) (base ++ way))
    (hat : fs.tree.at? (base ++ way) = some (.dir entries)) :
    collectSources fs r settings [p] = .ok
      ((s.waysBelow r way entries).map (sourceAlong (settings.projectRoot.join p) way),log) := by
  have hlanding := landing_of_resolve plain hp.resolves
  have hkeys : ((s.waysBelow r way entries).map (sourceAlong (settings.projectRoot.join p) way)).map
      (fun q => pathOf (fs.landing q)) = (s.waysBelow r way entries).map fun w => pathOf (base ++ w) := by
    rw [List.map_map]
    refine List.map_congr_left fun w hw => ?_
    exact congrArg pathOf (landing_source plain hat hlanding hw)
  have hdistinct : ((s.waysBelow r way entries).map fun w => pathOf (base ++ w)).Nodup := by
    refine (Scope.nodup_waysBelow (plain.at? hat).1).map ?_
    intro v w h
    exact List.append_cancel_left (congrArg Path.parts h)
  have hfiles : sourcesAt fs r settings.scan s (settings.projectRoot.join p) = .ok
      ((s.waysBelow r way entries).map (sourceAlong (settings.projectRoot.join p) way),[]) := by
    rw [sourcesAt,if_pos hp.isDirectory]
    refine bind_eq_ok.mpr ⟨_,mapError_eq_ok.mpr hp.resolves,?_⟩
    rw [hroot,relativeTo?_pathOf]
    exact bind_eq_ok.mpr ⟨_,scanWithin_eq plain hroot hat,rfl⟩
  have hcollect : ∃ c : Collection, collectFrom fs r settings s { log } [p] = .ok c ∧
      c.sources = (s.waysBelow r way entries).map (sourceAlong (settings.projectRoot.join p) way) ∧
      c.log = log := by
    refine ⟨_,bind_eq_ok.mpr ⟨_,hfiles,bind_eq_ok.mpr ⟨_,addAll_of_nodup plain ?_,rfl⟩⟩,?_,?_⟩
    · rw [hkeys,List.nil_append]
      exact hdistinct
    · simp
    · simp
  obtain ⟨c,hc,hsources,hlog⟩ := hcollect
  rw [← hsources,← hlog]
  exact bind_eq_ok.mpr ⟨_,hscope,bind_eq_ok.mpr ⟨c,hc,rfl⟩⟩

theorem filter_liesUnder (plain : fs.tree.Plain) (hat : fs.tree.at? base = some (.dir entries))
    {directory : Path} (hdirectory : fs.landing directory = base ++ way) (hp : fs.landing p = base) :
    ((s.waysBelow r [] entries).map (sourceAlong p [])).filter (fs.liesUnder directory) =
      ((s.waysBelow r [] entries).filter way.isPrefixOf).map (sourceAlong p []) := by
  rw [List.filter_map]
  refine congrArg _ (List.filter_congr fun w hw => ?_)
  have hsource : fs.landing (sourceAlong p [] w) = base ++ w :=
    landing_source plain (by simpa using hat) (by simpa using hp) hw
  rw [Function.comp_apply,liesUnder,resolve_eq plain,resolve_eq plain,hsource,hdirectory]
  dsimp only
  rw [isUnder_pathOf,Bool.eq_iff_iff,List.isPrefixOf_iff_prefix,List.isPrefixOf_iff_prefix,
    List.prefix_append_right_inj]

end Collecting

theorem sourceAlong_join (p : Path) {way w : List String} (h : way <+: w) :
    sourceAlong (p.join { parts := way }) way w = sourceAlong p [] w := by
  obtain ⟨rest,rfl⟩ := h
  simp [sourceAlong,Path.join,Path.isAbsolute]

theorem subdirectory_selects_its_part {fs : FileSystem} (plain : fs.tree.Plain) (r : Registry)
    (settings : Settings) {top sub : Path} {base way : Place}
    (hroot : fs.resolve settings.projectRoot = .ok (pathOf base))
    (htop : fs.LeadsTo (settings.projectRoot.join top) base)
    (hsub : fs.LeadsTo (settings.projectRoot.join sub) (base ++ way)) :
    (∃ e, Scope.ofRoot fs settings.projectRoot settings.scan = .error e ∧
      collectSources fs r settings [top] = .error e ∧ collectSources fs r settings [sub] = .error e) ∨
    ∃ s log all part, Scope.ofRoot fs settings.projectRoot settings.scan = .ok (s,log) ∧
      collectSources fs r settings [top] = .ok (all,log) ∧
      collectSources fs r settings [sub] = .ok (part,log) ∧
      (¬ LeavesOut s.omits [] way →
        part.map fs.resolve =
          (all.filter (fs.liesUnder (settings.projectRoot.join sub))).map fs.resolve ∧
        (settings.projectRoot.join sub = (settings.projectRoot.join top).join { parts := way } →
          part = all.filter (fs.liesUnder (settings.projectRoot.join sub)))) ∧
      (LeavesOut s.omits [] way → all.filter (fs.liesUnder (settings.projectRoot.join sub)) = []) := by
  cases hscope : Scope.ofRoot fs settings.projectRoot settings.scan with
  | error e =>
    refine .inl ⟨e,rfl,?_,?_⟩
    · rw [collectSources,hscope]
      rfl
    · rw [collectSources,hscope]
      rfl
  | ok found =>
    obtain ⟨s,log⟩ := found
    have hbase : s.root = pathOf base := by
      rw [Scope.ofRoot_root hscope] at hroot
      exact Except.ok.inj hroot
    obtain ⟨entries,hentries⟩ := htop.entries plain
    obtain ⟨inner,hinner⟩ := hsub.entries plain
    have hfrom : fs.tree.at? (base ++ []) = some (.dir entries) := by rwa [List.append_nil]
    have hthrough : (Entry.dir entries).at? way = some (.dir inner) := by
      rwa [Entry.at?_append,hentries,Option.bind_some] at hinner
    have hlandsTop := landing_of_resolve plain htop.resolves
    have hlandsSub := landing_of_resolve plain hsub.resolves
    obtain ⟨hin,hout⟩ := s.waysBelow_through (r := r) (plain.at? hentries).1 hthrough
    -- Both lists are sources along ways in one order, so what is left is a statement about the ways.
    refine .inr ⟨s,log,_,_,rfl,
      collectSources_directory plain hscope hbase (by simpa using htop) hfrom,
      collectSources_directory plain hscope hbase hsub hinner,?_,?_⟩
    · intro h
      rw [filter_liesUnder plain hentries hlandsSub hlandsTop,hin h]
      refine ⟨?_,fun hwritten => ?_⟩
      · rw [List.map_map,List.map_map]
        refine List.map_congr_left fun w hw => ?_
        have hwhole : w ∈ s.waysBelow r [] entries := (List.mem_filter.mp (hin h ▸ hw)).1
        have hone := landing_source plain hinner hlandsSub hw
        have hother := landing_source plain hfrom (by simpa using hlandsTop) hwhole
        rw [Function.comp_apply,Function.comp_apply,resolve_eq plain,resolve_eq plain,hone,hother]
      · refine List.map_congr_left fun w hw => ?_
        rw [hwritten,sourceAlong_join _ (way_of_mem_waysBelow plain hinner hw).1]
    · intro h
      rw [filter_liesUnder plain hentries hlandsSub hlandsTop,hout h,List.map_nil]

def archive : FileSystem where
  tree := .dir [("docs",.dir [("B.java",.file []),("old",.dir [("A.java",.file [])])])]

def archiveSettings : Settings where
  projectRoot := pathOf []
  scan := { excludePatterns := ["docs/old/","!docs/old/A.java"] }

def archiveScope : Scope where
  root := pathOf []
  rules :=
    let spelled (text : String) : List Ignore.Piece := text.toList.map fun c => .one (.only c)
    defaultExcludes.map (fun text => ⟨true,.ancestors :: spelled text⟩) ++
      [⟨true,spelled "docs/old/"⟩,⟨false,spelled "docs/old/A.java" ++ [.slashOrEnd]⟩]
  wanted := []

theorem archive_plain : archive.tree.Plain := by
  simp only [archive,Entry.Plain,Entry.PlainAll]
  decide

theorem ofRoot_archive :
    Scope.ofRoot archive archiveSettings.projectRoot archiveSettings.scan = .ok (archiveScope,[]) := by
  cbv

theorem collectSources_archive (p : Path) (way w : List String) {entries : List (String × Entry)}
    (hp : archive.LeadsTo (archiveSettings.projectRoot.join p) way)
    (hat : archive.tree.at? way = some (.dir entries))
    (hfound : (waysAmong archiveScope.omits way entries).filter
      (fun w => archiveScope.yields .standard (slashed w)) = [w]) :
    collectSources archive .standard archiveSettings [p] =
      .ok ([sourceAlong (archiveSettings.projectRoot.join p) way w],[]) := by
  have hways : archiveScope.waysBelow .standard way entries = [w] := by
    rw [Scope.waysBelow,hfound,List.mergeSort_singleton]
  have hroot : archiveScope.root = pathOf [] := rfl
  rw [collectSources_directory archive_plain ofRoot_archive hroot hp hat,hways]
  rfl

theorem subdirectory_selects_its_part_docs :
    collectSources archive .standard archiveSettings [{ parts := ["docs"] }] =
        .ok ([pathOf ["docs","B.java"]],[]) ∧
      ∃ all, collectSources archive .standard archiveSettings [{}] = .ok (all,[]) ∧
        [pathOf ["docs","B.java"]] = all.filter (archive.liesUnder (pathOf ["docs"])) := by
  have hkept : ¬ LeavesOut archiveScope.omits [] ["docs"] := by
    rw [leavesOut_cons]
    rintro (h | h)
    · exact absurd h (by decide +kernel)
    · exact not_leavesOut_nil h
  have hdocs : archive.LeadsTo (archiveSettings.projectRoot.join { parts := ["docs"] }) ["docs"] :=
    ⟨by cbv,by cbv⟩
  have hpart : collectSources archive .standard archiveSettings [{ parts := ["docs"] }] =
      .ok ([pathOf ["docs","B.java"]],[]) :=
    collectSources_archive _ _ ["docs","B.java"] hdocs rfl (by decide +kernel)
  refine ⟨hpart,?_⟩
  have hroot : archive.resolve archiveSettings.projectRoot = .ok (pathOf []) := by cbv
  have htop : archive.LeadsTo (archiveSettings.projectRoot.join {}) [] := ⟨by cbv,by cbv⟩
  rcases subdirectory_selects_its_part archive_plain .standard archiveSettings hroot htop hdocs with
    ⟨e,he,_⟩ | ⟨s,log,all,part,hs,hall,hsub,hin,_⟩
  · rw [ofRoot_archive] at he
    cases he
  · rw [ofRoot_archive] at hs
    cases hs
    rw [hpart] at hsub
    cases hsub
    exact ⟨all,hall,(hin hkept).2 rfl⟩

theorem pruned_directory_is_scanned_from_below :
    archive.tree.Plain ∧
      collectSources archive .standard archiveSettings [{}] = .ok ([pathOf ["docs","B.java"]],[]) ∧
      collectSources archive .standard archiveSettings [{ parts := ["docs","old"] }] =
        .ok ([pathOf ["docs","old","A.java"]],[]) ∧
      [pathOf ["docs","B.java"]].filter (archive.liesUnder (pathOf ["docs","old"])) = [] := by
  refine ⟨archive_plain,?_,?_,by cbv⟩
  · exact collectSources_archive {} [] ["docs","B.java"] ⟨by cbv,by cbv⟩ rfl (by decide +kernel)
  · exact collectSources_archive { parts := ["docs","old"] } ["docs","old"] ["docs","old","A.java"]
      ⟨by cbv,by cbv⟩ rfl (by decide +kernel)

end ClassDiagram
