import ClassDiagram.Proofs.Project.Subdirectory

/-!
What can be collected for paths. A file is collected because its path was given, or because a scan came upon
it; a scan asks for the language of each file, so only a file that was given can be in none. The names of a
tree are all that is needed for this: the path that a file is collected under ends in the name that the scan
asked about. Without links every collected file is there.
-/

namespace ClassDiagram

namespace Path

theorem pathName_of_mem_partsOf {text name : String} (h : name ∈ partsOf text) : PathName name := by
  obtain ⟨hpiece,hkept⟩ := List.mem_filter.mp h
  obtain ⟨piece,hmem,rfl⟩ := List.mem_map.mp hpiece
  simp only [Bool.and_eq_true,decide_eq_true_eq] at hkept
  refine ⟨hkept.1,hkept.2,fun hslash => ?_⟩
  have hnone := Text.separatorless_of_mem_splitAtEach hmem '/' (by simpa using hslash)
  simp at hnone

theorem partsOf_singleton {name : String} (h : PathName name) : partsOf name = [name] := by
  have hparts : partsOf (slashed [name]) = [name] := partsOf_slashed (by simpa using h)
  rwa [slashed,String.intercalate_singleton] at hparts

theorem partsOf_below (directory : String) {name : String} (h : PathName name) :
    partsOf (below directory name) = partsOf directory ++ [name] := by
  rw [below]
  split
  · rename_i hempty
    rw [hempty,partsOf_singleton h]
    rfl
  · have htext : (directory ++ "/" ++ name).toList = directory.toList ++ '/' :: name.toList := by simp
    rw [← partsOf_singleton h,partsOf,htext,Text.splitAtEach_cut _ (by simp),List.map_append,
      List.filter_append]
    rfl

theorem name_ofString_name (text : String) : (ofString (ofString text).name).name = (ofString text).name := by
  cases hlast : (partsOf text).getLast? with
  | none =>
    have hname : (ofString text).name = "" := by simp [name,ofString,hlast]
    rw [hname]
    rfl
  | some last =>
    have hname : (ofString text).name = last := by simp [name,ofString,hlast]
    have hpart := pathName_of_mem_partsOf (List.mem_of_getLast? hlast)
    rw [hname]
    simp [name,ofString,partsOf_singleton hpart]

theorem join_absolute (p : Path) {q : Path} (h : q.isAbsolute = true) : p.join q = q := if_pos h

theorem name_join (p : Path) {q : Path} (h : q.parts ≠ []) : (p.join q).name = q.name := by
  rw [join]
  split
  · rfl
  · rw [name,name,List.getLast?_append_of_ne_nil _ h]

theorem relativeTo?_join (p : Path) (way : List String) :
    (p.join { parts := way }).relativeTo? p = some { parts := way } := by
  simp [join,isAbsolute,relativeTo?,isUnder]

theorem relativeTo?_eq_some {p base start : Path} (h : p.relativeTo? base = some start) :
    ∃ way, start = { parts := way } ∧ p = base.join { parts := way } := by
  rw [relativeTo?] at h
  split at h
  · rename_i hunder
    rw [isUnder,Bool.and_eq_true,decide_eq_true_eq,List.isPrefixOf_iff_prefix] at hunder
    obtain ⟨hroot,way,hway⟩ := hunder
    obtain rfl := Option.some.inj h
    refine ⟨way,by simp [← hway],?_⟩
    cases p
    simp_all [join,isAbsolute]
  · cases h

theorem relativeTo?_here (p : Path) : (p.relativeTo? { parts := [] }).getD p = p := by
  rw [relativeTo?]
  split
  · rename_i hunder
    obtain ⟨root,parts⟩ := p
    obtain rfl : root = "" := by simpa [isUnder] using hunder
    rfl
  · rfl

end Path

theorem Registry.forFile?_name (r : Registry) (text : String) :
    r.forFile? (Path.ofString text).name = r.forFile? text := by
  rw [forFile?,forFile?,Path.suffix,Path.suffix,Path.name_ofString_name]

namespace Entry

mutual

def Named : Entry → Prop
  | .file _ | .link _ => True
  | .dir entries => NamedAll entries

def NamedAll : List (String × Entry) → Prop
  | [] => True
  | (name, e) :: rest => ProperName name ∧ e.Named ∧ NamedAll rest

end

theorem NamedAll.lookup {entries : List (String × Entry)} (h : NamedAll entries) {name : String}
    {e : Entry} (hl : entries.lookup name = some e) : e.Named := by
  induction entries with
  | nil => simp at hl
  | cons x rest ih =>
    obtain ⟨n,e'⟩ := x
    rw [NamedAll] at h
    rw [List.lookup_cons] at hl
    split at hl
    · exact Option.some.inj hl ▸ h.2.1
    · exact ih h.2.2 hl

theorem Named.at? {e e' : Entry} {place : Place} (h : e.Named) (he : e.at? place = some e') : e'.Named := by
  induction place generalizing e with
  | nil =>
    rw [at?_nil] at he
    exact Option.some.inj he ▸ h
  | cons name place ih =>
    obtain ⟨entries,inner,rfl,hlookup,hinner⟩ := at?_cons_eq_some he
    rw [Named] at h
    exact ih (h.lookup hlookup) hinner

end Entry

namespace FileSystem

variable {fs : FileSystem}

theorem at?_of_follow {links : Nat} {here place : Place} {todo : List String} {e : Entry}
    (h : fs.follow links here todo = .ok (.found place e)) : fs.tree.at? place = some e := by
  fun_induction fs.follow links here todo with
  | case1 => cases h
  | case2 _ _ _ hat =>
    cases h
    exact hat
  | case3 _ _ _ _ _ ih => exact ih h
  | case4 => cases h
  | case5 => cases h
  | case6 => cases h
  | case7 _ _ _ _ _ _ _ _ _ _ ih => exact ih h
  | case8 _ _ _ _ _ _ _ _ _ _ ih => exact ih h
  | case9 => cases h

theorem at?_of_locate {p : Path} {place : Place} {e : Entry} (h : fs.locate p = .ok (place,e)) :
    fs.tree.at? place = some e := by
  rw [locate] at h
  obtain ⟨destination,hfollow,h⟩ := bind_eq_ok.mp h
  cases destination with
  | free _ => cases h
  | found there e' =>
    cases h
    exact at?_of_follow hfollow

theorem not_isFile_of_isDirectory {p : Path} (h : fs.isDirectory p = true) : fs.isFile p = false := by
  rw [isDirectory] at h
  split at h
  · rename_i hlocate
    rw [isFile,hlocate]
  · cases h

end FileSystem

section Languages

variable {fs : FileSystem} {r : Registry} {s : Scope}

theorem parts_of_mem_filesAmong {skips : String → Bool} {toDirectory : Place → Bool} {here : Place}
    {directory file : String} {entries : List (String × Entry)} (hnamed : Entry.NamedAll entries)
    (h : file ∈ filesAmong skips toDirectory here directory entries) :
    ∃ names, names ≠ [] ∧ Path.partsOf file = Path.partsOf directory ++ names := by
  induction entries using Entry.forest_induction generalizing here directory with
  | nil => simp [filesAmong] at h
  | file name bytes rest ih =>
    rw [Entry.NamedAll] at hnamed
    rw [filesAmong,filesAt,List.mem_append,List.mem_singleton] at h
    rcases h with rfl | h
    · exact ⟨[name],by simp,Path.partsOf_below directory hnamed.1.pathName⟩
    · exact ih hnamed.2.2 h
  | link name target rest ih =>
    rw [Entry.NamedAll] at hnamed
    rw [filesAmong,filesAt,List.mem_append] at h
    rcases h with h | h
    · split at h
      · simp at h
      · obtain rfl := List.mem_singleton.mp h
        exact ⟨[name],by simp,Path.partsOf_below directory hnamed.1.pathName⟩
    · exact ih hnamed.2.2 h
  | dir name inner rest ihi ihr =>
    rw [Entry.NamedAll,Entry.Named] at hnamed
    rw [filesAmong,filesAt,List.mem_append] at h
    rcases h with h | h
    · split at h
      · simp at h
      · obtain ⟨names,_,hparts⟩ := ihi hnamed.2.1 h
        refine ⟨name :: names,by simp,?_⟩
        rw [hparts,Path.partsOf_below directory hnamed.1.pathName]
        simp
    · exact ihr hnamed.2.2 h

theorem Scope.of_mem_scan (named : fs.tree.Named) {way : List String} {files : List String} {file : String}
    (hscan : s.scan fs r { parts := way } = .ok files) (h : file ∈ files) :
    (r.forFile? file).isSome = true ∧
      ∃ names, names ≠ [] ∧ Path.partsOf file = Path.partsOf (slashed way) ++ names := by
  rw [scan,Path.relativeTo?_join] at hscan
  dsimp only at hscan
  split at hscan
  · rename_i place entries hlocate
    have hentries := named.at? (FileSystem.at?_of_locate hlocate)
    rw [Entry.Named] at hentries
    obtain rfl := Except.ok.inj hscan
    rw [sortPaths,List.mem_mergeSort,text_of_way] at h
    obtain ⟨hmem,hyields⟩ := List.mem_filter.mp h
    rw [yields,Bool.and_eq_true] at hyields
    exact ⟨hyields.2,parts_of_mem_filesAmong hentries hmem⟩
  · obtain rfl := Except.ok.inj hscan
    simp at h

-- The path a scan gives for a text that it found, below a directory that it was given.
def foundAt (p : Path) (way : List String) (file : String) : Path :=
  p.join (((Path.ofString file).relativeTo? { parts := way }).getD (Path.ofString file))

theorem name_foundAt (p : Path) {file : String} {way names : List String} (hne : names ≠ [])
    (hparts : Path.partsOf file = Path.partsOf (slashed way) ++ names) :
    (foundAt p way file).name = (Path.ofString file).name := by
  have hfile : (Path.ofString file).parts ≠ [] := by simp [Path.ofString,hparts,hne]
  rw [foundAt]
  cases hway : (Path.ofString file).relativeTo? { parts := way } with
  | none => exact Path.name_join p hfile
  | some rest =>
    obtain ⟨more,rfl,hmore⟩ := Path.relativeTo?_eq_some hway
    have hall : Path.partsOf file = way ++ more := congrArg Path.parts hmore
    -- The names of the way are names of a text, so they are the names of their own text.
    have hclean : ∀ n ∈ way, PathName n := fun n hn =>
      Path.pathName_of_mem_partsOf (hall ▸ List.mem_append_left _ hn)
    rw [partsOf_slashed hclean,hall] at hparts
    obtain rfl := List.append_cancel_left hparts
    rw [Option.getD_some,Path.name_join p hne,hmore,Path.name_join _ hne]

structure Scanned (fs : FileSystem) (r : Registry) (p q : Path) (s : Scope) (way : List String)
    (files : List String) (file : String) : Prop where
  isDirectory : fs.isDirectory p = true
  resolves : fs.resolve p = .ok (s.root.join { parts := way })
  scans : s.scan fs r { parts := way } = .ok files
  mem : file ∈ files
  found : q = foundAt p way file

theorem of_mem_sourcesAt {options : ScanOptions} {p q : Path} {files : List Path} {log : Log}
    (hfiles : sourcesAt fs r options s p = .ok (files,log)) (hq : q ∈ files) :
    (q = p ∧ fs.isFile p = true) ∨ ∃ scope way texts file, Scanned fs r p q scope way texts file := by
  rw [sourcesAt] at hfiles
  split at hfiles
  · rename_i hdirectory
    right
    obtain ⟨resolved,hresolved,hfiles⟩ := bind_eq_ok.mp hfiles
    rw [mapError_eq_ok] at hresolved
    split at hfiles
    · rename_i start hstart
      obtain ⟨found,hfound,hfiles⟩ := bind_eq_ok.mp hfiles
      obtain ⟨rfl,_⟩ := Prod.mk.inj (pure_eq_ok.mp hfiles)
      rw [scanWithin] at hfound
      obtain ⟨texts,hscan,hfound⟩ := bind_eq_ok.mp hfound
      obtain rfl := pure_eq_ok.mp hfound
      obtain ⟨file,hfile,rfl⟩ := List.mem_map.mp hq
      obtain ⟨way,rfl,rfl⟩ := Path.relativeTo?_eq_some hstart
      exact ⟨s,way,texts,file,hdirectory,hresolved,hscan,hfile,rfl⟩
    · obtain ⟨⟨own,ownLog⟩,hown,hfiles⟩ := bind_eq_ok.mp hfiles
      obtain ⟨texts,hscan,hfiles⟩ := bind_eq_ok.mp hfiles
      obtain ⟨rfl,_⟩ := Prod.mk.inj (pure_eq_ok.mp hfiles)
      obtain ⟨file,hfile,rfl⟩ := List.mem_map.mp hq
      have hroot : fs.resolve p = .ok (own.root.join { parts := [] }) := by
        rw [Scope.ofRoot_root hown]
        simp [Path.join,Path.isAbsolute]
      refine ⟨own,[],texts,file,hdirectory,hroot,hscan,hfile,?_⟩
      rw [foundAt,Path.relativeTo?_here]
  · split at hfiles
    · rename_i hfile
      obtain ⟨rfl,_⟩ := Prod.mk.inj (pure_eq_ok.mp hfiles)
      exact .inl ⟨List.mem_singleton.mp hq,hfile⟩
    · obtain ⟨rfl,_⟩ := Prod.mk.inj (pure_eq_ok.mp hfiles)
      simp at hq

theorem Scanned.forFile?_eq (named : fs.tree.Named) {p q : Path} {way files : List String} {file : String}
    (h : Scanned fs r p q s way files file) : r.forFile? q.name = r.forFile? file := by
  obtain ⟨_,names,hne,hparts⟩ := Scope.of_mem_scan named h.scans h.mem
  rw [h.found,name_foundAt p hne hparts,Registry.forFile?_name]

theorem Scanned.language (named : fs.tree.Named) {p q : Path} {way files : List String} {file : String}
    (h : Scanned fs r p q s way files file) : (r.forFile? q.name).isSome = true := by
  rw [h.forFile?_eq named]
  exact (Scope.of_mem_scan named h.scans h.mem).1

end Languages

section Existence

variable {fs : FileSystem} {r : Registry} {s : Scope} {entries : List (String × Entry)}

theorem Entry.at?_cons_of_not_mem {name : String} {e found : Entry} {n : String} {more : Place}
    (hname : name ∉ entries.map Prod.fst) (h : (Entry.dir entries).at? (n :: more) = some found) :
    (Entry.dir ((name,e) :: entries)).at? (n :: more) = some found := by
  obtain ⟨_,inner,heq,hlookup,hinner⟩ := at?_cons_eq_some h
  obtain rfl := Entry.dir.inj heq
  have hne : n ≠ name := by
    rintro rfl
    obtain ⟨before,after,hsplit,_⟩ := List.lookup_eq_some_iff.mp hlookup
    exact hname (by simp [hsplit])
  rw [at?_dir,List.lookup_cons,beq_false_of_ne hne,hlookup,Option.bind_some,hinner]

theorem file_of_mem_waysAmong {skips : List String → Bool} {way w : List String}
    (hplain : (Entry.dir entries).Plain) (hw : w ∈ waysAmong skips way entries) :
    ∃ name more bytes, w = way ++ name :: more ∧
      (Entry.dir entries).at? (name :: more) = some (.file bytes) := by
  rw [Entry.Plain] at hplain
  obtain ⟨hnames,hplain⟩ := hplain
  induction entries using Entry.forest_induction generalizing way with
  | nil => simp [waysAmong] at hw
  | file name bytes rest ih =>
    rw [List.map_cons,List.nodup_cons] at hnames
    rw [Entry.PlainAll] at hplain
    rw [waysAmong,waysAt,List.mem_append,List.mem_singleton] at hw
    rcases hw with rfl | hw
    · exact ⟨name,[],bytes,rfl,by simp [Entry.at?_dir,Entry.at?_nil]⟩
    · obtain ⟨n,more,found,hsplit,hat⟩ := ih hw hnames.2 hplain.2.2
      exact ⟨n,more,found,hsplit,Entry.at?_cons_of_not_mem hnames.1 hat⟩
  | link name target rest ih =>
    rw [Entry.PlainAll,Entry.Plain] at hplain
    exact hplain.2.1.elim
  | dir name inner rest ihi ihr =>
    rw [List.map_cons,List.nodup_cons] at hnames
    rw [Entry.PlainAll,Entry.Plain] at hplain
    rw [waysAmong,waysAt,List.mem_append] at hw
    rcases hw with hw | hw
    · split at hw
      · simp at hw
      · obtain ⟨n,more,found,hsplit,hat⟩ := ihi hw hplain.2.1.1 hplain.2.1.2
        refine ⟨name,n :: more,found,by simp [hsplit],?_⟩
        rw [Entry.at?_dir,List.lookup_cons_self,Option.bind_some,hat]
    · obtain ⟨n,more,found,hsplit,hat⟩ := ihr hw hnames.2 hplain.2.2
      exact ⟨n,more,found,hsplit,Entry.at?_cons_of_not_mem hnames.1 hat⟩

namespace FileSystem

theorem follow_through (plain : fs.tree.Plain) {links : Nat} {here place : Place} {todo names : List String}
    {e found : Entry} (h : fs.follow links here todo = .ok (.found place e))
    (hat : fs.tree.at? (place ++ names) = some found) :
    fs.follow links here (todo ++ names) = .ok (.found (place ++ names) found) := by
  fun_induction fs.follow links here todo with
  | case1 => cases h
  | case2 =>
    cases h
    exact follow_names plain hat
  | case3 _ _ _ rest hdir ih =>
    rw [List.cons_append,follow.eq_def,hdir]
    exact ih h
  | case4 => cases h
  | case5 => cases h
  | case6 => cases h
  | case7 _ _ _ _ hdir hdots _ hlookup _ _ ih =>
    rw [List.cons_append,follow.eq_def,hdir]
    dsimp only
    rw [if_neg hdots,hlookup]
    simpa using ih h
  | case8 _ _ _ _ _ hdir hdots inner hlink hlookup ih =>
    rw [List.cons_append,follow.eq_def,hdir]
    dsimp only
    rw [if_neg hdots,hlookup]
    cases inner with
    | link target => exact (hlink target rfl).elim
    | file bytes => exact ih h
    | dir inside => exact ih h
  | case9 => cases h

theorem isFile_join (plain : fs.tree.Plain) {p : Path} {names : List String} {bytes : List UInt8}
    (hp : fs.isDirectory p = true) (hat : fs.tree.at? (fs.landing p ++ names) = some (.file bytes)) :
    fs.isFile (p.join { parts := names }) = true := by
  have hjoin : p.join { parts := names } = { p with parts := p.parts ++ names } := by
    simp [Path.join,Path.isAbsolute]
  rw [isDirectory,locate,destination] at hp
  rcases follow_cases plain maxLinks (startOf fs.current p) p.parts with
    ⟨fault,_,hf⟩ | ⟨place,hf⟩ | ⟨e,_,hf⟩
  · rw [hf] at hp
    cases hp
  · rw [hf] at hp
    cases hp
  · have hfollow : fs.destination (p.join { parts := names }) = .ok
        (.found (fs.landing p ++ names) (.file bytes)) := by
      rw [hjoin]
      exact follow_through plain hf hat
    rw [isFile,locate,hfollow]
    rfl

end FileSystem

open FileSystem in
theorem Scanned.isFile (plain : fs.tree.Plain) {p q : Path} {way files : List String} {file : String}
    (h : Scanned fs r p q s way files file) : fs.isFile q = true := by
  have hplace := h.resolves
  rw [resolve_eq plain,Except.ok.injEq] at hplace
  obtain ⟨entries,hentries⟩ := directory_at_landing plain h.isDirectory
  have hlanding : fs.landing p = s.root.parts ++ way := by
    simpa [pathOf,Path.join,Path.isAbsolute] using congrArg Path.parts hplace
  have hroot : s.root = pathOf s.root.parts := by
    have hslash := congrArg Path.root hplace
    simp only [pathOf,Path.join,Path.isAbsolute] at hslash ⊢
    cases hs : s.root
    simp_all
  have hat : fs.tree.at? (s.root.parts ++ way) = some (.dir entries) := hlanding ▸ hentries
  have hscan := h.scans
  rw [s.scan_eq plain hroot hat,Except.ok.injEq] at hscan
  obtain ⟨w,hw,rfl⟩ := List.mem_map.mp (hscan ▸ h.mem)
  obtain ⟨_,hproper⟩ := way_of_mem_waysBelow plain hat hw
  obtain ⟨name,more,bytes,rfl,hfile⟩ := file_of_mem_waysAmong (plain.at? hat).1
    (Scope.mem_waysAmong_of_mem_waysBelow hw)
  have hq : q = p.join { parts := name :: more } := by
    rw [h.found,foundAt,ofString_slashed hproper]
    simp [Path.relativeTo?,Path.isUnder]
  rw [hq]
  have hthere : fs.tree.at? (fs.landing p ++ name :: more) = some (.file bytes) := by
    rw [Entry.at?_append,hentries,Option.bind_some,hfile]
  exact isFile_join plain h.isDirectory hthere

end Existence

-- A file is one of those that a path stands for.
def Yields (fs : FileSystem) (r : Registry) (settings : Settings) (p file : Path) : Prop :=
  ∃ s log files more, Scope.ofRoot fs settings.projectRoot settings.scan = .ok (s,log) ∧
    sourcesAt fs r settings.scan s (settings.projectRoot.join p) = .ok (files,more) ∧ file ∈ files

section Collecting

variable {fs : FileSystem} {r : Registry} {settings : Settings} {p file : Path}

theorem Yields.language (named : fs.tree.Named) (h : Yields fs r settings p file) :
    (r.forFile? file.name).isSome = true ∨
      (file = settings.projectRoot.join p ∧ fs.isFile file = true) := by
  obtain ⟨s,log,files,more,_,hfiles,hmem⟩ := h
  rcases of_mem_sourcesAt hfiles hmem with ⟨rfl,hfile⟩ | ⟨scope,way,texts,text,hscanned⟩
  · exact .inr ⟨rfl,hfile⟩
  · exact .inl (hscanned.language named)

theorem Yields.isFile (plain : fs.tree.Plain) (h : Yields fs r settings p file) : fs.isFile file = true := by
  obtain ⟨s,log,files,more,_,hfiles,hmem⟩ := h
  rcases of_mem_sourcesAt hfiles hmem with ⟨rfl,hfile⟩ | ⟨scope,way,texts,text,hscanned⟩
  · exact hfile
  · exact hscanned.isFile plain

theorem Yields.of_isFile (h : Yields fs r settings p file)
    (hp : fs.isFile (settings.projectRoot.join p) = true) : file = settings.projectRoot.join p := by
  obtain ⟨s,log,files,more,_,hfiles,hmem⟩ := h
  rcases of_mem_sourcesAt hfiles hmem with ⟨rfl,_⟩ | ⟨scope,way,texts,text,hscanned⟩
  · rfl
  · rw [FileSystem.not_isFile_of_isDirectory hscanned.isDirectory] at hp
    cases hp

namespace Collection

variable {c c' : Collection} {files : List Path}

-- Each file has its key, so no file is left out for a key unless there is one with that key.
def Keyed (c : Collection) : Prop := c.keys.length = c.sources.length

theorem add_eq_ok (h : c.add fs file = .ok c') :
    (c.keys ≠ [] ∧ c'.keys = c.keys ∧ c'.sources = c.sources) ∨
      ∃ key, c'.keys = c.keys ++ [key] ∧ c'.sources = c.sources ++ [file] := by
  rw [add] at h
  obtain ⟨key,_,h⟩ := bind_eq_ok.mp h
  split at h
  · rename_i hmem
    obtain rfl := pure_eq_ok.mp h
    exact .inl ⟨List.ne_nil_of_mem hmem,rfl,rfl⟩
  · obtain rfl := pure_eq_ok.mp h
    exact .inr ⟨key,rfl,rfl⟩

theorem Keyed.add (hkeyed : c.Keyed) (h : c.add fs file = .ok c') :
    c'.Keyed ∧ c'.sources ≠ [] ∧ ∀ q ∈ c'.sources, q ∈ c.sources ∨ q = file := by
  rcases add_eq_ok h with ⟨hne,hkeys,hsources⟩ | ⟨key,hkeys,hsources⟩
  · rw [Keyed,hkeys,hsources]
    refine ⟨hkeyed,?_,fun q hq => .inl hq⟩
    rw [← List.length_pos_iff,← hkeyed]
    exact List.length_pos_iff.mpr hne
  · refine ⟨?_,by simp [hsources],by simp [hsources]⟩
    rw [Keyed,hkeys,hsources,List.length_append,List.length_append,hkeyed]
    rfl

theorem Keyed.addAll (hkeyed : c.Keyed) (h : c.addAll fs files = .ok c') :
    c'.Keyed ∧ (c'.sources = [] ↔ c.sources = [] ∧ files = []) ∧
      ∀ q ∈ c'.sources, q ∈ c.sources ∨ q ∈ files := by
  induction files generalizing c with
  | nil =>
    obtain rfl := Except.ok.inj h
    simpa using hkeyed
  | cons file files ih =>
    obtain ⟨first,hfirst,h⟩ := bind_eq_ok.mp h
    obtain ⟨hkeyed,hne,hmem⟩ := hkeyed.add hfirst
    obtain ⟨hkeyed,hnil,hmems⟩ := ih hkeyed h
    refine ⟨hkeyed,by simp [hnil,hne],fun q hq => ?_⟩
    rcases hmems q hq with hq | hq
    · rcases hmem q hq with hq | rfl
      · exact .inl hq
      · simp
    · exact .inr (List.mem_cons_of_mem _ hq)

end Collection

theorem collectFrom_sources {s : Scope} {c c' : Collection} {paths : List Path} (hkeyed : c.Keyed)
    (h : collectFrom fs r settings s c paths = .ok c') :
    (∀ p ∈ paths, ∃ files more,
      sourcesAt fs r settings.scan s (settings.projectRoot.join p) = .ok (files,more) ∧
        (c'.sources = [] → files = [])) ∧
    (c'.sources = [] → c.sources = []) ∧
    ∀ q ∈ c'.sources, q ∈ c.sources ∨ ∃ p ∈ paths, ∃ files more,
      sourcesAt fs r settings.scan s (settings.projectRoot.join p) = .ok (files,more) ∧ q ∈ files := by
  induction paths generalizing c with
  | nil =>
    obtain rfl := Except.ok.inj h
    exact ⟨by simp,id,fun q hq => .inl hq⟩
  | cons p paths ih =>
    obtain ⟨⟨files,more⟩,hfiles,h⟩ := bind_eq_ok.mp h
    obtain ⟨first,hfirst,h⟩ := bind_eq_ok.mp h
    obtain ⟨hfirstKeyed,hnil,hmem⟩ := Collection.Keyed.addAll (c := { c with log := c.log ++ more })
      hkeyed hfirst
    obtain ⟨hrest,hkept,hmems⟩ := ih hfirstKeyed h
    refine ⟨?_,fun hempty => (hnil.mp (hkept hempty)).1,fun q hq => ?_⟩
    · refine List.forall_mem_cons.mpr ⟨⟨files,more,hfiles,?_⟩,hrest⟩
      exact fun hempty => (hnil.mp (hkept hempty)).2
    · rcases hmems q hq with hq | ⟨p',hp',hyields⟩
      · rcases hmem q hq with hq | hq
        · exact .inl hq
        · exact .inr ⟨p,by simp,files,more,hfiles,hq⟩
      · exact .inr ⟨p',List.mem_cons_of_mem _ hp',hyields⟩

theorem collectSources_yields {paths sources : List Path} {log : Log}
    (h : collectSources fs r settings paths = .ok (sources,log)) :
    (sources = [] ↔ ∀ p ∈ paths, ∀ file, ¬ Yields fs r settings p file) ∧
      ∀ q ∈ sources, ∃ p ∈ paths, Yields fs r settings p q := by
  obtain ⟨⟨s,scopeLog⟩,hscope,h⟩ := bind_eq_ok.mp h
  obtain ⟨c,hcollect,h⟩ := bind_eq_ok.mp h
  obtain ⟨rfl,_⟩ := Prod.mk.inj (pure_eq_ok.mp h)
  have hkeyed : ({ log := scopeLog } : Collection).Keyed := rfl
  obtain ⟨hfiles,_,hmem⟩ := collectFrom_sources hkeyed hcollect
  have hyielded : ∀ q ∈ c.sources, ∃ p ∈ paths, Yields fs r settings p q := by
    intro q hq
    rcases hmem q hq with hq | ⟨p,hp,files,more,hfiles,hq⟩
    · simp at hq
    · exact ⟨p,hp,s,scopeLog,files,more,hscope,hfiles,hq⟩
  refine ⟨⟨?_,?_⟩,hyielded⟩
  · rintro hempty p hp file ⟨s',_,files',_,hscope',hfiles',hfile⟩
    obtain ⟨rfl,_⟩ := Prod.mk.inj (Except.ok.inj (hscope.symm.trans hscope'))
    obtain ⟨files,more,hfiles,hnone⟩ := hfiles p hp
    obtain ⟨rfl,_⟩ := Prod.mk.inj (Except.ok.inj (hfiles.symm.trans hfiles'))
    simp [hnone hempty] at hfile
  · intro hnone
    refine List.eq_nil_iff_forall_not_mem.mpr fun q hq => ?_
    obtain ⟨p,hp,hyields⟩ := hyielded q hq
    exact hnone p hp q hyields

end Collecting

end ClassDiagram
