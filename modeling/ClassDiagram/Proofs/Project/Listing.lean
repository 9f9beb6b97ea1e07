import ClassDiagram.Proofs.Project.Collected

/-!
The exact result of a scan, in a tree that may have links. A scan gives the files below a directory, in the
order of their texts and each of them once: those that are in a known language and belong to the scope, and
that no ignored directory stands above. Directories are reached by their names alone; a link to a directory is
not followed, and any other link is a file.
-/

namespace ClassDiagram

namespace Entry

mutual

def Distinct : Entry → Prop
  | .file _ | .link _ => True
  | .dir entries => (entries.map Prod.fst).Nodup ∧ DistinctAll entries

def DistinctAll : List (String × Entry) → Prop
  | [] => True
  | (_, e) :: rest => e.Distinct ∧ DistinctAll rest

end

variable {entries : List (String × Entry)} {name : String} {e e' : Entry} {place : Place}

theorem DistinctAll.lookup (h : DistinctAll entries) (hl : entries.lookup name = some e) : e.Distinct := by
  induction entries with
  | nil => simp at hl
  | cons x rest ih =>
    rw [DistinctAll] at h
    rw [List.lookup_cons] at hl
    split at hl
    · exact Option.some.inj hl ▸ h.1
    · exact ih h.2 hl

theorem Distinct.at? (h : e.Distinct) (he : e.at? place = some e') : e'.Distinct := by
  induction place generalizing e with
  | nil =>
    rw [at?_nil] at he
    exact Option.some.inj he ▸ h
  | cons name place ih =>
    obtain ⟨entries,inner,rfl,hlookup,hinner⟩ := at?_cons_eq_some he
    rw [Distinct] at h
    exact ih (h.2.lookup hlookup) hinner

theorem NamedAll.properName (h : NamedAll entries) (hname : name ∈ entries.map Prod.fst) :
    ProperName name := by
  induction entries with
  | nil => simp at hname
  | cons x rest ih =>
    obtain ⟨n,e⟩ := x
    rw [NamedAll] at h
    rw [List.map_cons,List.mem_cons] at hname
    rcases hname with rfl | hname
    · exact h.1
    · exact ih h.2.2 hname

theorem mem_of_lookup (h : entries.lookup name = some e) : (name,e) ∈ entries := by
  obtain ⟨before,after,rfl,_⟩ := List.lookup_eq_some_iff.mp h
  simp

theorem Named.properNames (h : e.Named) (he : e.at? place = some e') : ∀ n ∈ place, ProperName n := by
  induction place generalizing e with
  | nil => simp
  | cons name place ih =>
    obtain ⟨entries,inner,rfl,hlookup,hinner⟩ := at?_cons_eq_some he
    rw [Named] at h
    refine List.forall_mem_cons.mpr ⟨?_,ih (h.lookup hlookup) hinner⟩
    exact h.properName (List.mem_map_of_mem (mem_of_lookup hlookup))

theorem at?_of_mem (hnames : (entries.map Prod.fst).Nodup) (h : (name,e) ∈ entries) :
    (Entry.dir entries).at? [name] = some e := by
  induction entries with
  | nil => simp at h
  | cons x rest ih =>
    obtain ⟨hfirst,hrest⟩ := List.nodup_cons.mp hnames
    rcases List.mem_cons.mp h with rfl | h
    · rw [at?_dir,List.lookup_cons_self,Option.bind_some,at?_nil]
    · exact at?_cons_of_not_mem hfirst (ih hrest h)

end Entry

namespace FileSystem

variable {fs : FileSystem} {place : Place} {e : Entry}

theorem isDirectory_pathOf (named : fs.tree.Named) (hat : fs.tree.at? place = some e)
    (hlink : ∀ target, e ≠ .link target) : fs.isDirectory (pathOf place) = e.isDir := by
  have hdots : ∀ n ∈ place, n ≠ ".." := fun n hn => (named.properNames hat n hn).ne_dots
  have hfollow : fs.destination (pathOf place) = .ok (.found place e) :=
    follow_at hdots (show fs.tree.at? ([] ++ place) = some e from hat) hlink
  rw [isDirectory,locate,hfollow]
  cases e with
  | file bytes => rfl
  | link target => exact absurd rfl (hlink target)
  | dir entries => rfl

-- Something stands in a place, and it is no directory, nor a link to one.
def FileAt (fs : FileSystem) (place : Place) : Prop :=
  (∃ e, fs.tree.at? place = some e) ∧ fs.isDirectory (pathOf place) = false

theorem fileAt_file (named : fs.tree.Named) {bytes : List UInt8} (hat : fs.tree.at? place = some (.file bytes)) :
    fs.FileAt place := by
  refine ⟨⟨_,hat⟩,?_⟩
  rw [isDirectory_pathOf named hat (by simp)]
  rfl

theorem not_fileAt_dir (named : fs.tree.Named) {entries : List (String × Entry)}
    (hat : fs.tree.at? place = some (.dir entries)) : ¬ fs.FileAt place := by
  rintro ⟨_,hfile⟩
  rw [isDirectory_pathOf named hat (by simp)] at hfile
  simp [Entry.isDir] at hfile

theorem FileAt.properNames (named : fs.tree.Named) {names : List String} (h : fs.FileAt (place ++ names)) :
    ∀ n ∈ names, ProperName n := by
  obtain ⟨⟨e,he⟩,_⟩ := h
  exact fun n hn => named.properNames he n (List.mem_append_right _ hn)

end FileSystem

open FileSystem

section Listing

variable {fs : FileSystem} {s : Scope} {r : Registry} {here : Place} {way names : List String}
  {entries : List (String × Entry)} {file : String}

-- The files that a scan comes upon from a directory on, as texts that start with the way to it.
def Scope.listing (s : Scope) (fs : FileSystem) (here : Place) (way : List String)
    (entries : List (String × Entry)) : List String :=
  filesAmong s.ignores (fun place => fs.isDirectory (pathOf place)) here (slashed way) entries

theorem Scope.listing_nil : s.listing fs here way [] = [] := by rw [listing,filesAmong]

theorem Scope.listing_cons (hway : ∀ n ∈ way, n ≠ "") (name : String) (e : Entry)
    (rest : List (String × Entry)) :
    s.listing fs here way ((name,e) :: rest) =
      filesAt s.ignores (fun place => fs.isDirectory (pathOf place)) (here ++ [name])
        (slashed (way ++ [name])) e ++ s.listing fs here way rest := by
  rw [listing,filesAmong,below_slashed hway]
  rfl

theorem Scope.filesAt_dir (path : Place) :
    filesAt s.ignores (fun place => fs.isDirectory (pathOf place)) path (slashed way) (.dir entries) =
      if s.omits way then [] else s.listing fs path way entries := by
  rw [filesAt]
  rfl

theorem leavesOut_dropLast_cons {skips : List String → Bool} {name : String} (hnames : names ≠ []) :
    LeavesOut skips way (name :: names).dropLast ↔
      skips (way ++ [name]) = true ∨ LeavesOut skips (way ++ [name]) names.dropLast := by
  rw [List.dropLast_cons_of_ne_nil hnames,leavesOut_cons]

def Stands (fs : FileSystem) (here : Place) (entries : List (String × Entry)) : Prop :=
  ∀ x ∈ entries, fs.tree.at? (here ++ [x.1]) = some x.2

theorem stands_of_at? (distinct : fs.tree.Distinct) (hat : fs.tree.at? here = some (.dir entries)) :
    Stands fs here entries := by
  rintro ⟨name,e⟩ hx
  have hnames := distinct.at? hat
  rw [Entry.Distinct] at hnames
  rw [Entry.at?_append,hat,Option.bind_some]
  exact Entry.at?_of_mem hnames.1 hx

theorem nonempty_append {name : String} (hway : ∀ n ∈ way, n ≠ "") (hname : ProperName name) :
    ∀ n ∈ way ++ [name], n ≠ "" :=
  List.forall_mem_append.mpr ⟨hway,List.forall_mem_singleton.mpr hname.ne_empty⟩

theorem exists_of_mem_listing (named : fs.tree.Named) (distinct : fs.tree.Distinct)
    (hstands : Stands fs here entries) (hway : ∀ n ∈ way, n ≠ "")
    (h : file ∈ s.listing fs here way entries) :
    ∃ name ∈ entries.map Prod.fst, ∃ more, fs.FileAt (here ++ name :: more) ∧
      file = slashed (way ++ name :: more) ∧ ¬ LeavesOut s.omits way (name :: more).dropLast := by
  induction entries using Entry.forest_induction generalizing here way with
  | nil => simp [Scope.listing_nil] at h
  | file name bytes rest ih =>
    obtain ⟨hat,hrest⟩ := List.forall_mem_cons.mp hstands
    rw [Scope.listing_cons hway,filesAt,List.mem_append,List.mem_singleton] at h
    rcases h with rfl | h
    · exact ⟨name,by simp,[],fileAt_file named hat,rfl,not_leavesOut_nil⟩
    · obtain ⟨n,hn,hmore⟩ := ih hrest hway h
      exact ⟨n,List.mem_cons_of_mem _ hn,hmore⟩
  | link name target rest ih =>
    obtain ⟨hat,hrest⟩ := List.forall_mem_cons.mp hstands
    rw [Scope.listing_cons hway,filesAt,List.mem_append] at h
    rcases h with h | h
    · split at h
      · simp at h
      · rename_i hdirectory
        obtain rfl := List.mem_singleton.mp h
        exact ⟨name,by simp,[],⟨⟨_,hat⟩,by simpa using hdirectory⟩,rfl,not_leavesOut_nil⟩
    · obtain ⟨n,hn,hmore⟩ := ih hrest hway h
      exact ⟨n,List.mem_cons_of_mem _ hn,hmore⟩
  | dir name inner rest ihi ihr =>
    obtain ⟨hat,hrest⟩ := List.forall_mem_cons.mp hstands
    rw [Scope.listing_cons hway,Scope.filesAt_dir,List.mem_append] at h
    rcases h with h | h
    · split at h
      · simp at h
      · rename_i hkept
        have hname := named.properNames hat name (by simp)
        obtain ⟨n,_,more,hfile,rfl,hopen⟩ :=
          ihi (stands_of_at? distinct hat) (nonempty_append hway hname) h
        refine ⟨name,by simp,n :: more,by simpa using hfile,by simp,?_⟩
        rw [leavesOut_dropLast_cons (by simp)]
        exact not_or.mpr ⟨hkept,hopen⟩
    · obtain ⟨n,hn,hmore⟩ := ihr hrest hway h
      exact ⟨n,List.mem_cons_of_mem _ hn,hmore⟩

theorem mem_listing_of_mem (hway : ∀ n ∈ way, n ≠ "") {name : String} {e : Entry} (hx : (name,e) ∈ entries)
    (h : file ∈ filesAt s.ignores (fun place => fs.isDirectory (pathOf place)) (here ++ [name])
      (slashed (way ++ [name])) e) : file ∈ s.listing fs here way entries := by
  induction entries with
  | nil => simp at hx
  | cons x rest ih =>
    rw [Scope.listing_cons hway,List.mem_append]
    rcases List.mem_cons.mp hx with rfl | hx
    · exact .inl h
    · exact .inr (ih hx)

-- The names lead down one directory after another, so the induction is on them and not on the tree.
theorem mem_listing_of_fileAt (named : fs.tree.Named) (hat : fs.tree.at? here = some (.dir entries))
    (hway : ∀ n ∈ way, n ≠ "") (hfile : fs.FileAt (here ++ names))
    (hopen : ¬ LeavesOut s.omits way names.dropLast) :
    slashed (way ++ names) ∈ s.listing fs here way entries := by
  induction names generalizing here way entries with
  | nil =>
    rw [List.append_nil] at hfile
    exact absurd hfile (not_fileAt_dir named hat)
  | cons name names ih =>
    obtain ⟨⟨e,he⟩,hdirectory⟩ := hfile
    have hname := named.properNames he name (by simp)
    have hthrough := he
    rw [Entry.at?_append,hat,Option.bind_some] at hthrough
    obtain ⟨_,first,heq,hlookup,hrest⟩ := Entry.at?_cons_eq_some hthrough
    obtain rfl := Entry.dir.inj heq
    have hfirst : fs.tree.at? (here ++ [name]) = some first := by
      rw [Entry.at?_append,hat,Option.bind_some,Entry.at?_dir,hlookup,Option.bind_some,Entry.at?_nil]
    refine mem_listing_of_mem hway (Entry.mem_of_lookup hlookup) ?_
    by_cases hnames : names = []
    · subst hnames
      cases first with
      | file bytes => rw [filesAt,List.mem_singleton]
      | link target => rw [filesAt,if_neg (by simp [hdirectory]),List.mem_singleton]
      | dir inner => exact absurd ⟨⟨_,hfirst⟩,hdirectory⟩ (not_fileAt_dir named hfirst)
    · obtain ⟨inner,rfl⟩ : ∃ inner, first = .dir inner := by
        obtain ⟨n,more,rfl⟩ := List.exists_cons_of_ne_nil hnames
        obtain ⟨inner,_,hinner,_⟩ := Entry.at?_cons_eq_some hrest
        exact ⟨inner,hinner⟩
      rw [leavesOut_dropLast_cons hnames,not_or] at hopen
      have hbelow := ih hfirst (nonempty_append hway hname) (by simpa [FileAt] using ⟨⟨e,he⟩,hdirectory⟩) hopen.2
      rw [Scope.filesAt_dir,if_neg hopen.1]
      simpa using hbelow

theorem mem_listing (named : fs.tree.Named) (distinct : fs.tree.Distinct)
    (hat : fs.tree.at? here = some (.dir entries)) (hway : ∀ n ∈ way, n ≠ "") :
    file ∈ s.listing fs here way entries ↔
      ∃ names, fs.FileAt (here ++ names) ∧ file = slashed (way ++ names) ∧
        ¬ LeavesOut s.omits way names.dropLast := by
  constructor
  · intro h
    obtain ⟨name,_,more,hfile⟩ := exists_of_mem_listing named distinct (stands_of_at? distinct hat) hway h
    exact ⟨name :: more,hfile⟩
  · rintro ⟨names,hfile,rfl,hopen⟩
    exact mem_listing_of_fileAt named hat hway hfile hopen

theorem slashed_append_injective {v w : List String} (hway : ∀ n ∈ way, PathName n) (hv : ∀ n ∈ v, ProperName n)
    (hw : ∀ n ∈ w, ProperName n) (h : slashed (way ++ v) = slashed (way ++ w)) : v = w := by
  have hnames : ∀ {u : List String}, (∀ n ∈ u, ProperName n) → ∀ n ∈ way ++ u, PathName n :=
    fun hu => List.forall_mem_append.mpr ⟨hway,fun n hn => (hu n hn).pathName⟩
  have hparts := congrArg Path.partsOf h
  rw [partsOf_slashed (hnames hv),partsOf_slashed (hnames hw)] at hparts
  exact List.append_cancel_left hparts

theorem nodup_listing_cons (named : fs.tree.Named) (distinct : fs.tree.Distinct) {name : String} {e : Entry}
    (hname : name ∉ entries.map Prod.fst) (hstands : Stands fs here ((name,e) :: entries))
    (hway : ∀ n ∈ way, PathName n)
    (hat : (filesAt s.ignores (fun place => fs.isDirectory (pathOf place)) (here ++ [name])
      (slashed (way ++ [name])) e).Nodup)
    (hrest : (s.listing fs here way entries).Nodup) : (s.listing fs here way ((name,e) :: entries)).Nodup := by
  have hne : ∀ n ∈ way, n ≠ "" := fun n hn => (hway n hn).ne_empty
  obtain ⟨hfirst,hothers⟩ := List.forall_mem_cons.mp hstands
  rw [Scope.listing_cons hne]
  refine List.nodup_append.mpr ⟨hat,hrest,?_⟩
  rintro f hf _ hg rfl
  -- What is found at one entry is what is found among the entries when there is no other.
  have hf : f ∈ s.listing fs here way [(name,e)] := mem_listing_of_mem hne (by simp) hf
  obtain ⟨n,hn,more,hfile,hthere,_⟩ :=
    exists_of_mem_listing named distinct (by simpa [Stands] using hfirst) hne hf
  obtain ⟨n',hn',more',hfile',hthere',_⟩ := exists_of_mem_listing named distinct hothers hne hg
  obtain rfl : n = name := by simpa using hn
  have hsame := slashed_append_injective hway (hfile.properNames named) (hfile'.properNames named)
    (hthere.symm.trans hthere')
  exact hname ((List.cons.inj hsame).1 ▸ hn')

theorem nodup_listing (named : fs.tree.Named) (distinct : fs.tree.Distinct)
    (hnames : (entries.map Prod.fst).Nodup) (hstands : Stands fs here entries) (hway : ∀ n ∈ way, PathName n) :
    (s.listing fs here way entries).Nodup := by
  induction entries using Entry.forest_induction generalizing here way with
  | nil => simp [Scope.listing_nil]
  | file name bytes rest ih =>
    obtain ⟨hname,hnames⟩ := List.nodup_cons.mp hnames
    have hrest := ih hnames (List.forall_mem_cons.mp hstands).2 hway
    exact nodup_listing_cons named distinct hname hstands hway (by simp [filesAt]) hrest
  | link name target rest ih =>
    obtain ⟨hname,hnames⟩ := List.nodup_cons.mp hnames
    have hrest := ih hnames (List.forall_mem_cons.mp hstands).2 hway
    refine nodup_listing_cons named distinct hname hstands hway ?_ hrest
    rw [filesAt]
    split
    · exact List.nodup_nil
    · exact List.nodup_singleton _
  | dir name inner rest ihi ihr =>
    obtain ⟨hname,hnames⟩ := List.nodup_cons.mp hnames
    obtain ⟨hat,hothers⟩ := List.forall_mem_cons.mp hstands
    refine nodup_listing_cons named distinct hname hstands hway ?_ (ihr hnames hothers hway)
    rw [Scope.filesAt_dir]
    split
    · exact List.nodup_nil
    · have hinner := distinct.at? hat
      rw [Entry.Distinct] at hinner
      have hproper := (named.properNames hat name (by simp)).pathName
      refine ihi hinner.1 (stands_of_at? distinct hat) ?_
      exact List.forall_mem_append.mpr ⟨hway,List.forall_mem_singleton.mpr hproper⟩

theorem pairwise_lt_sortPaths {files : List String} (h : files.Nodup) : (sortPaths files).Pairwise (· < ·) := by
  have hsorted : (sortPaths files).Pairwise fun a b => decide (a ≤ b) = true := by
    refine List.pairwise_mergeSort ?_ ?_ files
    · intro a b c hab hbc
      simp only [decide_eq_true_eq] at hab hbc ⊢
      exact String.le_trans hab hbc
    · intro a b
      simpa using String.le_total a b
  have hnodup : (sortPaths files).Nodup := (List.mergeSort_perm _ _).nodup_iff.mpr h
  refine (hsorted.and hnodup).imp ?_
  rintro a b ⟨hle,hne⟩
  exact lt_of_le_of_ne (of_decide_eq_true hle) hne

end Listing

section Scanning

variable {fs : FileSystem} {s : Scope} {r : Registry} {start : Path} {way : List String} {place : Place}
  {entries : List (String × Entry)}

theorem Scope.scan_directory (hstart : fs.locate (s.root.join start) = .ok (place,.dir entries))
    (hway : (s.root.join start).relativeTo? s.root = some { parts := way }) :
    s.scan fs r start = .ok (sortPaths ((s.listing fs place way entries).filter (s.yields r))) := by
  rw [scan]
  dsimp only
  rw [hstart,hway]
  dsimp only
  rw [text_of_way]
  rfl

theorem Scope.pairwise_scanned (named : fs.tree.Named) (distinct : fs.tree.Distinct)
    (hat : fs.tree.at? place = some (.dir entries)) (hnames : ∀ n ∈ way, PathName n) :
    (sortPaths ((s.listing fs place way entries).filter (s.yields r))).Pairwise (· < ·) := by
  have hentries := distinct.at? hat
  rw [Entry.Distinct] at hentries
  have hlisting : (s.listing fs place way entries).Nodup :=
    nodup_listing named distinct hentries.1 (stands_of_at? distinct hat) hnames
  exact pairwise_lt_sortPaths (hlisting.filter _)

theorem Scope.mem_scanned (named : fs.tree.Named) (distinct : fs.tree.Distinct)
    (hat : fs.tree.at? place = some (.dir entries)) (hnames : ∀ n ∈ way, PathName n) {file : String} :
    file ∈ sortPaths ((s.listing fs place way entries).filter (s.yields r)) ↔
      ∃ names, fs.FileAt (place ++ names) ∧ file = slashed (way ++ names) ∧
        (r.forFile? file).isSome = true ∧ s.includes file = true ∧ ¬ LeavesOut s.omits way names.dropLast := by
  have hne : ∀ n ∈ way, n ≠ "" := fun n hn => (hnames n hn).ne_empty
  rw [sortPaths,List.mem_mergeSort,List.mem_filter,mem_listing named distinct hat hne,yields,Bool.and_eq_true]
  constructor
  · rintro ⟨⟨names,hfile,rfl,hopen⟩,hincludes,hlanguage⟩
    exact ⟨names,hfile,rfl,hlanguage,hincludes,hopen⟩
  · rintro ⟨names,hfile,rfl,hlanguage,hincludes,hopen⟩
    exact ⟨⟨names,hfile,rfl,hopen⟩,hincludes,hlanguage⟩

theorem Scope.includes_iff {path : String} :
    s.includes path = true ↔ s.ignores path = false ∧
      (s.wanted = [] ∨ ∃ p ∈ s.wanted, path = p ∨ (p ++ "/").toList <+: path.toList) := by
  simp [includes,wants]

end Scanning

theorem scan_gives_exactly {fs : FileSystem} (named : fs.tree.Named) (distinct : fs.tree.Distinct) (s : Scope)
    (r : Registry) {start : Path} {way : List String} {place : Place} {entries : List (String × Entry)}
    (hstart : fs.locate (s.root.join start) = .ok (place,.dir entries))
    (hway : (s.root.join start).relativeTo? s.root = some { parts := way }) (hnames : ∀ n ∈ way, PathName n) :
    ∃ files, s.scan fs r start = .ok files ∧ files.Pairwise (· < ·) ∧
      ∀ file, file ∈ files ↔ ∃ names, fs.FileAt (place ++ names) ∧ file = slashed (way ++ names) ∧
        (r.forFile? file).isSome = true ∧
        (s.ignores file = false ∧
          (s.wanted = [] ∨ ∃ p ∈ s.wanted, file = p ∨ (p ++ "/").toList <+: file.toList)) ∧
        ¬ LeavesOut s.omits way names.dropLast := by
  have hat := at?_of_locate hstart
  refine ⟨_,Scope.scan_directory hstart hway,Scope.pairwise_scanned named distinct hat hnames,fun file => ?_⟩
  simp only [← Scope.includes_iff]
  exact Scope.mem_scanned named distinct hat hnames

def attic : FileSystem where
  tree := .dir
    [("X.java",.file []),
      ("docs",.dir
        [("B.java",.file []),("C.java",.link "B.java"),("latest",.link "old"),
          ("old",.dir [("A.java",.file [])])])]

def atticScope : Scope where
  root := pathOf []
  rules :=
    let spelled (text : String) : List Ignore.Piece := text.toList.map fun c => .one (.only c)
    [⟨true,spelled "docs/old/"⟩,⟨false,spelled "docs/old/A.java" ++ [.slashOrEnd]⟩]
  wanted := ["docs"]

theorem attic_named : attic.tree.Named := by
  simp only [attic,Entry.Named,Entry.NamedAll]
  decide

theorem attic_distinct : attic.tree.Distinct := by
  simp only [attic,Entry.Distinct,Entry.DistinctAll]
  decide

-- No rule ignores the file in `old`, but one ignores the directory; the link to it is not followed.
theorem scan_gives_exactly_docs :
    ∃ files, atticScope.scan attic .standard { parts := ["docs"] } = .ok files ∧ files.Pairwise (· < ·) ∧
      "docs/B.java" ∈ files ∧ "docs/C.java" ∈ files ∧
      atticScope.includes "docs/old/A.java" = true ∧ "docs/old/A.java" ∉ files := by
  have hway : (atticScope.root.join { parts := ["docs"] }).relativeTo? atticScope.root =
      some { parts := ["docs"] } := by cbv
  have hnames : ∀ n ∈ ["docs"], PathName n := by simpa using ⟨by decide,by decide,by decide⟩
  obtain ⟨files,hscan,hsorted,hmem⟩ :=
    scan_gives_exactly attic_named attic_distinct atticScope .standard (by cbv) hway hnames
  refine ⟨files,hscan,hsorted,?_,?_,by decide +kernel,?_⟩
  · refine (hmem _).mpr ⟨["B.java"],fileAt_file attic_named rfl,rfl,by decide +kernel,?_,not_leavesOut_nil⟩
    exact ⟨by decide +kernel,.inr ⟨"docs",by decide,.inr (by decide)⟩⟩
  · refine (hmem _).mpr ⟨["C.java"],⟨⟨_,rfl⟩,by cbv⟩,rfl,by decide +kernel,?_,not_leavesOut_nil⟩
    exact ⟨by decide +kernel,.inr ⟨"docs",by decide,.inr (by decide)⟩⟩
  · intro hfile
    obtain ⟨names,hfile,hthere,_,_,hopen⟩ := (hmem _).mp hfile
    have hold : ∀ n ∈ ["old","A.java"], ProperName n := by decide
    obtain rfl : ["old","A.java"] = names :=
      slashed_append_injective hnames hold (hfile.properNames attic_named) hthere
    exact hopen ⟨["old"],by simp,by simp,by decide +kernel⟩

end ClassDiagram
