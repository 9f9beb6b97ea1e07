import ClassDiagram.Proofs.Project.Collected
import ClassDiagram.Proofs.Diagram.Imports

/-!
What a list of paths is collected to, when nothing fails: of the files that the paths stand for, one after
another, those that resolve to a path that no file before them resolves to. How a later path is collected hangs
on the earlier ones only through what they resolve to, so a list of paths can be taken apart anywhere.
-/

namespace ClassDiagram

section Firsts

variable {α β : Type} [DecidableEq β] {key : α → β} {seen more : List β} {xs ys zs : List α}

-- The elements whose key is not among those seen, nor that of an element before.
def firstsBy (key : α → β) (seen : List β) : List α → List α
  | [] => []
  | x :: xs => if key x ∈ seen then firstsBy key seen xs else x :: firstsBy key (key x :: seen) xs

theorem map_firstsBy (key : α → β) (seen : List β) (xs : List α) :
    (firstsBy key seen xs).map key = firstOccurrences seen (xs.map key) := by
  induction xs generalizing seen with
  | nil => rfl
  | cons x xs ih =>
    rw [firstsBy,List.map_cons,firstOccurrences]
    split
    · exact ih seen
    · rw [List.map_cons,ih]

theorem mem_map_firstsBy {k : β} : k ∈ (firstsBy key seen xs).map key ↔ k ∈ xs.map key ∧ k ∉ seen := by
  rw [map_firstsBy,mem_firstOccurrences]

theorem nodup_map_firstsBy : ((firstsBy key seen xs).map key).Nodup := by
  rw [map_firstsBy]
  exact firstOccurrences_nodup seen _

theorem firstsBy_congr (h : ∀ k, k ∈ seen ↔ k ∈ more) : firstsBy key seen xs = firstsBy key more xs := by
  induction xs generalizing seen more with
  | nil => rfl
  | cons x xs ih =>
    have hnext : ∀ k, k ∈ key x :: seen ↔ k ∈ key x :: more := by
      intro k
      rw [List.mem_cons,List.mem_cons,h]
    simp only [firstsBy,ih h,ih hnext,h]

theorem firstsBy_append : firstsBy key seen (xs ++ ys) =
    firstsBy key seen xs ++ firstsBy key (seen ++ (firstsBy key seen xs).map key) ys := by
  induction xs generalizing seen with
  | nil => simp [firstsBy]
  | cons x xs ih =>
    rw [List.cons_append,firstsBy,firstsBy]
    split
    · exact ih
    · rw [ih,List.cons_append]
      refine congrArg _ (congrArg _ (firstsBy_congr fun k => ?_))
      simp only [List.mem_append,List.mem_cons,List.map_cons]
      exact or_left_comm

theorem firstsBy_more : firstsBy key (more ++ seen) xs = (firstsBy key seen xs).filter fun x => key x ∉ more := by
  induction xs generalizing seen with
  | nil => rfl
  | cons x xs ih =>
    rw [firstsBy,firstsBy]
    by_cases hseen : key x ∈ seen
    · rw [if_pos (List.mem_append_right _ hseen),if_pos hseen,ih]
    · rw [if_neg hseen,List.filter_cons,← ih]
      by_cases hmore : key x ∈ more
      · rw [if_pos (List.mem_append_left _ hmore),if_neg (by simpa using hmore)]
        refine firstsBy_congr fun k => ?_
        by_cases hk : k = key x
        · simp [hk,hmore]
        · simp [hk]
      · rw [if_neg (by simpa using ⟨hmore,hseen⟩),if_pos (by simpa using hmore)]
        refine congrArg _ (firstsBy_congr fun k => ?_)
        simp only [List.mem_append,List.mem_cons]
        exact or_left_comm

theorem firstsBy_nil_append : firstsBy key [] (xs ++ ys) = firstsBy key [] xs ++
    (firstsBy key [] ys).filter fun y => key y ∉ (firstsBy key [] xs).map key := by
  rw [firstsBy_append,List.nil_append,← firstsBy_more,List.append_nil]

theorem firstsBy_eq_nil (h : ∀ x ∈ xs, key x ∈ seen) : firstsBy key seen xs = [] := by
  induction xs with
  | nil => rfl
  | cons x xs ih =>
    obtain ⟨hx,hxs⟩ := List.forall_mem_cons.mp h
    rw [firstsBy,if_pos hx,ih hxs]

theorem firstsBy_again (h : ∀ z ∈ zs, key z ∈ xs.map key) :
    firstsBy key [] (xs ++ (zs ++ ys)) = firstsBy key [] (xs ++ ys) := by
  have hnone : firstsBy key ([] ++ (firstsBy key [] xs).map key) zs = [] := by
    refine firstsBy_eq_nil fun z hz => ?_
    rw [List.nil_append,mem_map_firstsBy]
    exact ⟨h z hz,by simp⟩
  rw [firstsBy_append,firstsBy_append,hnone,List.map_nil,List.append_nil,List.nil_append,← firstsBy_append]

theorem firstsBy_sublist (key : α → β) (seen : List β) (xs : List α) : (firstsBy key seen xs).Sublist xs := by
  induction xs generalizing seen with
  | nil => exact List.Sublist.slnil
  | cons x xs ih =>
    rw [firstsBy]
    split
    · exact (ih seen).cons x
    · exact (ih (key x :: seen)).cons_cons x

theorem perm_map_firstsBy (h : ∀ x, x ∈ xs ↔ x ∈ ys) :
    ((firstsBy key seen xs).map key).Perm ((firstsBy key seen ys).map key) := by
  refine (List.perm_ext_iff_of_nodup nodup_map_firstsBy nodup_map_firstsBy).mpr fun k => ?_
  rw [mem_map_firstsBy,mem_map_firstsBy,List.mem_map,List.mem_map]
  simp only [h]

end Firsts

section Collecting

variable {fs : FileSystem} {r : Registry} {settings : Settings} {s : Scope} {c c' : Collection}
  {p : Path} {files paths sources : List Path}

def Resolvable (fs : FileSystem) (p : Path) : Prop := ∃ key, fs.resolve p = .ok key

theorem exists_keys (h : ∀ p ∈ files, Resolvable fs p) :
    ∃ keys : List Path, files.map fs.resolve = keys.map .ok := by
  induction files with
  | nil => exact ⟨[],rfl⟩
  | cons p files ih =>
    obtain ⟨⟨key,hkey⟩,hfiles⟩ := List.forall_mem_cons.mp h
    obtain ⟨keys,hkeys⟩ := ih hfiles
    exact ⟨key :: keys,by rw [List.map_cons,hkey,hkeys,List.map_cons]⟩

namespace Collection

-- The keys are what the sources resolve to.
def Resolved (fs : FileSystem) (c : Collection) : Prop := c.sources.map fs.resolve = c.keys.map .ok

theorem Resolved.add (hc : c.Resolved fs) (h : c.add fs p = .ok c') :
    Resolvable fs p ∧ c'.Resolved fs ∧
      c'.sources = c.sources ++ firstsBy fs.resolve (c.sources.map fs.resolve) [p] := by
  obtain ⟨key,hkey,h⟩ := bind_eq_ok.mp h
  rw [mapError_eq_ok] at hkey
  have hseen : fs.resolve p ∈ c.sources.map fs.resolve ↔ key ∈ c.keys := by
    rw [hc,hkey]
    simp
  split at h
  · rename_i hmem
    obtain rfl := pure_eq_ok.mp h
    exact ⟨⟨key,hkey⟩,hc,by simp [firstsBy,hseen.mpr hmem]⟩
  · rename_i hmem
    obtain rfl := pure_eq_ok.mp h
    refine ⟨⟨key,hkey⟩,?_,?_⟩
    · rw [Resolved,List.map_append,List.map_append,hc,List.map_singleton,hkey]
      rfl
    · simp [firstsBy,mt hseen.mp hmem]

theorem exists_add (c : Collection) (h : Resolvable fs p) : ∃ c', c.add fs p = .ok c' := by
  obtain ⟨key,hkey⟩ := h
  by_cases hmem : key ∈ c.keys
  · exact ⟨_,bind_eq_ok.mpr ⟨key,mapError_eq_ok.mpr hkey,by rw [if_pos hmem]; rfl⟩⟩
  · exact ⟨_,bind_eq_ok.mpr ⟨key,mapError_eq_ok.mpr hkey,by rw [if_neg hmem]; rfl⟩⟩

theorem Resolved.addAll (hc : c.Resolved fs) (h : c.addAll fs files = .ok c') :
    (∀ p ∈ files, Resolvable fs p) ∧ c'.Resolved fs ∧
      c'.sources = c.sources ++ firstsBy fs.resolve (c.sources.map fs.resolve) files := by
  induction files generalizing c with
  | nil =>
    obtain rfl := Except.ok.inj h
    exact ⟨by simp,hc,by simp [firstsBy]⟩
  | cons p files ih =>
    obtain ⟨first,hfirst,h⟩ := bind_eq_ok.mp h
    obtain ⟨hp,hfirst,hsources⟩ := hc.add hfirst
    obtain ⟨hfiles,hc',hall⟩ := ih hfirst h
    refine ⟨List.forall_mem_cons.mpr ⟨hp,hfiles⟩,hc',?_⟩
    have hboth : firstsBy fs.resolve (c.sources.map fs.resolve) ([p] ++ files) = _ := firstsBy_append
    rw [List.singleton_append] at hboth
    rw [hall,hsources,List.map_append,List.append_assoc,hboth]

theorem exists_addAll (c : Collection) (h : ∀ p ∈ files, Resolvable fs p) :
    ∃ c', c.addAll fs files = .ok c' := by
  induction files generalizing c with
  | nil => exact ⟨c,rfl⟩
  | cons p files ih =>
    obtain ⟨hp,hfiles⟩ := List.forall_mem_cons.mp h
    obtain ⟨first,hfirst⟩ := exists_add c hp
    obtain ⟨c',hc'⟩ := ih first hfiles
    exact ⟨c',bind_eq_ok.mpr ⟨first,hfirst,hc'⟩⟩

end Collection

-- The files that a path stands for in a project.
def filesFor (fs : FileSystem) (r : Registry) (settings : Settings) (s : Scope) (p : Path) : List Path :=
  match sourcesAt fs r settings.scan s (settings.projectRoot.join p) with
  | .ok (files, _) => files
  | .error _ => []

structure Collectable (fs : FileSystem) (r : Registry) (settings : Settings) (s : Scope) (p : Path) : Prop where
  stands : ∃ files log, sourcesAt fs r settings.scan s (settings.projectRoot.join p) = .ok (files,log)
  resolves : ∀ file ∈ filesFor fs r settings s p, Resolvable fs file

theorem filesFor_eq {log : Log}
    (h : sourcesAt fs r settings.scan s (settings.projectRoot.join p) = .ok (files,log)) :
    filesFor fs r settings s p = files := by
  rw [filesFor,h]

theorem collectFrom_eq (hc : c.Resolved fs) (h : collectFrom fs r settings s c paths = .ok c') :
    (∀ p ∈ paths, Collectable fs r settings s p) ∧
      c'.sources = c.sources ++
        firstsBy fs.resolve (c.sources.map fs.resolve) (paths.flatMap (filesFor fs r settings s)) := by
  induction paths generalizing c with
  | nil =>
    obtain rfl := Except.ok.inj h
    exact ⟨by simp,by simp [firstsBy]⟩
  | cons p paths ih =>
    obtain ⟨⟨files,log⟩,hfiles,h⟩ := bind_eq_ok.mp h
    obtain ⟨first,hfirst,h⟩ := bind_eq_ok.mp h
    obtain ⟨hresolves,hfirst,hsources⟩ :=
      Collection.Resolved.addAll (c := { c with log := c.log ++ log }) hc hfirst
    obtain ⟨hothers,hall⟩ := ih hfirst h
    have hown := filesFor_eq hfiles
    refine ⟨List.forall_mem_cons.mpr ⟨⟨⟨files,log,hfiles⟩,hown ▸ hresolves⟩,hothers⟩,?_⟩
    rw [hall,hsources,List.map_append,List.flatMap_cons,hown,firstsBy_append,List.append_assoc]

theorem exists_collectFrom (c : Collection) (h : ∀ p ∈ paths, Collectable fs r settings s p) :
    ∃ c', collectFrom fs r settings s c paths = .ok c' := by
  induction paths generalizing c with
  | nil => exact ⟨c,rfl⟩
  | cons p paths ih =>
    obtain ⟨hp,hpaths⟩ := List.forall_mem_cons.mp h
    obtain ⟨files,log,hfiles⟩ := hp.stands
    obtain ⟨first,hfirst⟩ := Collection.exists_addAll { c with log := c.log ++ log } (filesFor_eq hfiles ▸ hp.resolves)
    obtain ⟨c',hc'⟩ := ih first hpaths
    exact ⟨c',bind_eq_ok.mpr ⟨_,hfiles,bind_eq_ok.mpr ⟨first,hfirst,hc'⟩⟩⟩

-- The files that paths stand for, each where it is first reached.
def firstReached (fs : FileSystem) (r : Registry) (settings : Settings) (s : Scope) (paths : List Path) :
    List Path :=
  firstsBy fs.resolve [] (paths.flatMap (filesFor fs r settings s))

-- Nothing of this depends on the order of the paths but the order of the files.
theorem collectSources_iff : (∃ log, collectSources fs r settings paths = .ok (sources,log)) ↔
    ∃ s log, Scope.ofRoot fs settings.projectRoot settings.scan = .ok (s,log) ∧
      (∀ p ∈ paths, Collectable fs r settings s p) ∧ sources = firstReached fs r settings s paths := by
  constructor
  · rintro ⟨log,h⟩
    obtain ⟨⟨s,scopeLog⟩,hscope,h⟩ := bind_eq_ok.mp h
    obtain ⟨c,hcollect,h⟩ := bind_eq_ok.mp h
    obtain ⟨rfl,_⟩ := Prod.mk.inj (pure_eq_ok.mp h)
    obtain ⟨hpaths,hsources⟩ := collectFrom_eq (c := { log := scopeLog }) rfl hcollect
    exact ⟨s,scopeLog,hscope,hpaths,by simpa [firstReached] using hsources⟩
  · rintro ⟨s,log,hscope,hpaths,rfl⟩
    obtain ⟨c,hcollect⟩ := exists_collectFrom { log } hpaths
    obtain ⟨_,hsources⟩ := collectFrom_eq (c := { log }) rfl hcollect
    refine ⟨c.log,bind_eq_ok.mpr ⟨_,hscope,bind_eq_ok.mpr ⟨c,hcollect,?_⟩⟩⟩
    exact pure_eq_ok.mpr (by simpa [firstReached] using hsources)

theorem exists_nodup_keys (h : ∀ p ∈ paths, Collectable fs r settings s p) :
    ∃ keys : List Path, (firstReached fs r settings s paths).map fs.resolve = keys.map .ok ∧ keys.Nodup := by
  have hfiles : ∀ file ∈ firstReached fs r settings s paths, Resolvable fs file := by
    intro file hfile
    obtain ⟨p,hp,hfile⟩ := List.mem_flatMap.mp ((firstsBy_sublist _ _ _).subset hfile)
    exact (h p hp).resolves file hfile
  obtain ⟨keys,hkeys⟩ := exists_keys hfiles
  exact ⟨keys,hkeys,List.Nodup.of_map _ (hkeys ▸ nodup_map_firstsBy)⟩

theorem firstReached_append (xs ys : List Path) :
    firstReached fs r settings s (xs ++ ys) = firstReached fs r settings s xs ++
      (firstReached fs r settings s ys).filter
        fun p => fs.resolve p ∉ (firstReached fs r settings s xs).map fs.resolve := by
  rw [firstReached,List.flatMap_append,firstsBy_nil_append]
  rfl

theorem mem_resolved_firstReached {key : Except LinkCircle Path} :
    key ∈ (firstReached fs r settings s paths).map fs.resolve ↔
      ∃ p ∈ paths, key ∈ (firstReached fs r settings s [p]).map fs.resolve := by
  simp only [firstReached,mem_map_firstsBy,List.map_flatMap,List.mem_flatMap,List.mem_singleton,exists_eq_left,
    List.not_mem_nil,not_false_eq_true,and_true]

theorem firstReached_again {before after : List Path} (h : p ∈ before) :
    firstReached fs r settings s (before ++ p :: after) = firstReached fs r settings s (before ++ after) := by
  rw [firstReached,firstReached,List.flatMap_append,List.flatMap_append,List.flatMap_cons]
  refine firstsBy_again fun file hfile => ?_
  exact List.mem_map_of_mem (List.mem_flatMap.mpr ⟨p,h,hfile⟩)

theorem perm_resolved_firstReached {xs ys : List Path} (h : xs.Perm ys) :
    ((firstReached fs r settings s xs).map fs.resolve).Perm ((firstReached fs r settings s ys).map fs.resolve) := by
  refine perm_map_firstsBy fun file => ?_
  simp only [List.mem_flatMap,h.mem_iff]

end Collecting

theorem collected_once_without_loss {fs : FileSystem} {r : Registry} {settings : Settings} {xs ys a b : List Path}
    {logX logY : Log} (hx : collectSources fs r settings xs = .ok (a,logX))
    (hy : collectSources fs r settings ys = .ok (b,logY)) :
    (∃ keys : List Path, a.map fs.resolve = keys.map .ok ∧ keys.Nodup) ∧
    (∃ log, collectSources fs r settings (xs ++ ys) =
      .ok (a ++ b.filter (fun p => fs.resolve p ∉ a.map fs.resolve),log)) ∧
    (∀ key, key ∈ a.map fs.resolve ↔
      ∃ x ∈ xs, ∃ c log, collectSources fs r settings [x] = .ok (c,log) ∧ key ∈ c.map fs.resolve) ∧
    (∀ before x after, xs = before ++ after → x ∈ before →
      ∃ log, collectSources fs r settings (before ++ x :: after) = .ok (a,log)) ∧
    ∀ zs, zs.Perm xs → ∃ c log, collectSources fs r settings zs = .ok (c,log) ∧
      (c.map fs.resolve).Perm (a.map fs.resolve) := by
  obtain ⟨s,log,hscope,hxs,rfl⟩ := collectSources_iff.mp ⟨_,hx⟩
  obtain ⟨s',log',hscope',hys,rfl⟩ := collectSources_iff.mp ⟨_,hy⟩
  obtain ⟨rfl,rfl⟩ := Prod.mk.inj (Except.ok.inj (hscope.symm.trans hscope'))
  -- What paths are collected to is known as soon as each of them can be collected.
  have hcollect : ∀ {zs : List Path}, (∀ p ∈ zs, Collectable fs r settings s p) →
      ∃ log, collectSources fs r settings zs = .ok (firstReached fs r settings s zs,log) :=
    fun h => collectSources_iff.mpr ⟨s,log,hscope,h,rfl⟩
  have hsingle : ∀ x ∈ xs, ∃ log,
      collectSources fs r settings [x] = .ok (firstReached fs r settings s [x],log) :=
    fun x hx => hcollect (List.forall_mem_singleton.mpr (hxs x hx))
  refine ⟨exists_nodup_keys hxs,?_,fun key => ?_,?_,fun zs hperm => ?_⟩
  · rw [← firstReached_append]
    exact hcollect (List.forall_mem_append.mpr ⟨hxs,hys⟩)
  · rw [mem_resolved_firstReached]
    constructor
    · rintro ⟨x,hx,hkey⟩
      obtain ⟨log,hown⟩ := hsingle x hx
      exact ⟨x,hx,_,log,hown,hkey⟩
    · rintro ⟨x,hx,c,log,hcollected,hkey⟩
      obtain ⟨log',hown⟩ := hsingle x hx
      obtain ⟨rfl,_⟩ := Prod.mk.inj (Except.ok.inj (hcollected.symm.trans hown))
      exact ⟨x,hx,hkey⟩
  · rintro before x after rfl hbefore
    obtain ⟨hfirst,hlast⟩ := List.forall_mem_append.mp hxs
    rw [← firstReached_again hbefore]
    exact hcollect (List.forall_mem_append.mpr ⟨hfirst,List.forall_mem_cons.mpr ⟨hfirst x hbefore,hlast⟩⟩)
  · obtain ⟨log,hzs⟩ := hcollect fun p hp => hxs p (hperm.mem_iff.mp hp)
    exact ⟨_,log,hzs,perm_resolved_firstReached hperm⟩

def gallery : FileSystem where
  tree := .dir [("A.java",.file []),("B.java",.file []),("Copy.java",.link "A.java"),("pkg",.dir [])]

def gallerySettings : Settings where
  projectRoot := FileSystem.pathOf []

-- The copy is a link to a file that was reached before, so only the other file is new.
theorem collected_once_without_loss_gallery :
    (∃ log, collectSources gallery .standard gallerySettings
        [{ parts := ["A.java"] },{ parts := ["Copy.java"] },{ parts := ["pkg","..","B.java"] }] =
      .ok ([FileSystem.pathOf ["A.java"],FileSystem.pathOf ["pkg","..","B.java"]],log)) ∧
    ∃ log, collectSources gallery .standard gallerySettings [{ parts := ["A.java"] },{ parts := ["A.java"] }] =
      .ok ([FileSystem.pathOf ["A.java"]],log) := by
  have hfirst : collectSources gallery .standard gallerySettings [{ parts := ["A.java"] }] =
      .ok ([FileSystem.pathOf ["A.java"]],[]) := by cbv
  have hsecond : collectSources gallery .standard gallerySettings
      [{ parts := ["Copy.java"] },{ parts := ["pkg","..","B.java"] }] =
      .ok ([FileSystem.pathOf ["Copy.java"],FileSystem.pathOf ["pkg","..","B.java"]],[]) := by cbv
  have hnew : [FileSystem.pathOf ["Copy.java"],FileSystem.pathOf ["pkg","..","B.java"]].filter
      (fun p => gallery.resolve p ∉ [FileSystem.pathOf ["A.java"]].map gallery.resolve) =
        [FileSystem.pathOf ["pkg","..","B.java"]] := by cbv
  obtain ⟨_,⟨log,hboth⟩,_,hagain,_⟩ := collected_once_without_loss hfirst hsecond
  rw [hnew] at hboth
  exact ⟨⟨log,hboth⟩,hagain [{ parts := ["A.java"] }] _ [] rfl (by simp)⟩

end ClassDiagram
