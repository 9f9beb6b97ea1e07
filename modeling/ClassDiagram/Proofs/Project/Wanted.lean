import ClassDiagram.Proofs.Project.Listing

/-!
Wanted paths as rows of names. A file belongs to what is wanted when the text of a wanted path begins its own, and
ends there or before a slash; this is the case when the pieces between the slashes of the wanted path begin the
row of names of the file. Slashes at the end of a wanted path are dropped first, but a piece that is no name is
kept elsewhere, and since no file has it among its names, such a path takes nothing in.
-/

namespace ClassDiagram

open FileSystem

section Texts

variable {way names : List String}

def pieces (text : String) : List String := (Text.splitAtEach (· = '/') text.toList).map String.ofList

theorem pieces_ne_nil (text : String) : pieces text ≠ [] := by
  simpa [pieces] using Text.splitAtEach_ne_nil _ text.toList

theorem pieces_slashed (hne : way ≠ []) (h : ∀ n ∈ way, '/' ∉ n.toList) : pieces (slashed way) = way := by
  rw [pieces,splitAtEach_slashed hne h,List.map_map]
  simp [Function.comp_def]

theorem pieces_cut (front back : String) : pieces (front ++ "/" ++ back) = pieces front ++ pieces back := by
  have htext : (front ++ "/" ++ back).toList = front.toList ++ '/' :: back.toList := by simp
  rw [pieces,htext,Text.splitAtEach_cut _ (by simp),List.map_append]
  rfl

theorem intercalate_splitAtEach (sep : Char) (cs : List Char) :
    [sep].intercalate (Text.splitAtEach (· = sep) cs) = cs := by
  induction cs with
  | nil => simp [Text.splitAtEach]
  | cons c cs ih =>
    obtain ⟨first,rest,hpieces⟩ := List.exists_cons_of_ne_nil (Text.splitAtEach_ne_nil (· = sep) cs)
    rw [hpieces] at ih
    rw [Text.splitAtEach,hpieces]
    split
    · rename_i hc
      obtain rfl : c = sep := by simpa using hc
      rw [← ih]
      simp [List.intercalate]
    · rw [← ih]
      cases rest with
      | nil => simp
      | cons second rest => simp [List.intercalate]

theorem slashed_pieces (text : String) : slashed (pieces text) = text := by
  have hchars : (pieces text).map String.toList = Text.splitAtEach (· = '/') text.toList := by
    simp [pieces,Function.comp_def]
  rw [← String.toList_inj,slashed,String.toList_intercalate,hchars]
  exact intercalate_splitAtEach '/' text.toList

theorem under_iff_prefix (hway : way ≠ []) (hslash : ∀ n ∈ way, '/' ∉ n.toList) {text : String} :
    slashed way = text ∨ (text ++ "/").toList <+: (slashed way).toList ↔ pieces text <+: way := by
  constructor
  · rintro (rfl | ⟨rest,hrest⟩)
    · rw [pieces_slashed hway hslash]
    · have htext : slashed way = text ++ "/" ++ String.ofList rest := by
        rw [← String.toList_inj,← hrest]
        simp
      rw [← pieces_slashed hway hslash,htext,pieces_cut]
      exact List.prefix_append _ _
  · rintro ⟨rest,rfl⟩
    by_cases hrest : rest = []
    · rw [hrest,List.append_nil,slashed_pieces]
      exact .inl rfl
    · right
      have hfirst : (text ++ "/" ++ slashed rest).toList = (text ++ "/").toList ++ (slashed rest).toList :=
        String.toList_append
      rw [slashed_append (pieces_ne_nil text) hrest,slashed_pieces,hfirst]
      exact List.prefix_append _ _

end Texts

section Wanted

variable {fs : FileSystem} {directory : Path} {options : ScanOptions} {s : Scope} {log : Log} {way : List String}

-- The names in a wanted path, read as a path: what is empty or a dot is no name.
def wantedNames (path : String) : List String :=
  Path.partsOf (String.ofList (path.toList.map fun c => if c = '\\' then '/' else c))

-- Slashes at the end apart, there are only names between the slashes of a wanted path.
def Tidy (path : String) : Prop := ∀ n ∈ pieces (wantedPath path), n ≠ "" ∧ n ≠ "."

instance (path : String) : Decidable (Tidy path) :=
  inferInstanceAs (Decidable (∀ n ∈ pieces (wantedPath path), n ≠ "" ∧ n ≠ "."))

theorem partsOf_slash (cs : List Char) :
    Path.partsOf (String.ofList (cs ++ ['/'])) = Path.partsOf (String.ofList cs) := by
  rw [Path.partsOf,Path.partsOf,String.toList_ofList,String.toList_ofList,Text.splitAtEach_cut _ (by simp),
    List.map_append,List.filter_append]
  simp [Text.splitAtEach]

theorem partsOf_without_slashes (cs : List Char) :
    Path.partsOf (String.ofList (cs.reverse.dropWhile (· = '/')).reverse) = Path.partsOf (String.ofList cs) := by
  induction cs using List.reverseRecOn with
  | nil => rfl
  | append_singleton cs c ih =>
    rw [List.reverse_append,List.reverse_singleton,List.singleton_append,List.dropWhile_cons]
    split
    · rename_i hc
      obtain rfl : c = '/' := by simpa using hc
      rw [ih,partsOf_slash]
    · simp

theorem wantedNames_eq (path : String) : wantedNames path = Path.partsOf (wantedPath path) :=
  (partsOf_without_slashes _).symm

theorem Tidy.wantedNames {path : String} (h : Tidy path) : wantedNames path = pieces (wantedPath path) := by
  rw [wantedNames_eq,Path.partsOf]
  refine List.filter_eq_self.mpr fun n hn => ?_
  simp [(h n hn).1,(h n hn).2]

theorem pieces_prefix_iff (hway : ∀ n ∈ way, PathName n) {path : String} :
    pieces (wantedPath path) <+: way ↔ Tidy path ∧ wantedNames path <+: way := by
  constructor
  · intro h
    have htidy : Tidy path := fun n hn => ⟨(hway n (h.subset hn)).ne_empty,(hway n (h.subset hn)).ne_dot⟩
    exact ⟨htidy,htidy.wantedNames ▸ h⟩
  · rintro ⟨htidy,h⟩
    exact htidy.wantedNames ▸ h

theorem Scope.ofRoot_wanted (h : ofRoot fs directory options = .ok (s,log)) :
    s.wanted = options.includePaths.map wantedPath := by
  obtain ⟨root,_,h⟩ := bind_eq_ok.mp h
  obtain ⟨rules,_,h⟩ := bind_eq_ok.mp h
  obtain ⟨rfl,_⟩ := Prod.mk.inj (pure_eq_ok.mp h)
  rfl

end Wanted

theorem tidy_paths_take_in_what_is_below {fs : FileSystem} {directory : Path} {options : ScanOptions} {s : Scope}
    {log : Log} (hscope : Scope.ofRoot fs directory options = .ok (s,log)) {way : List String} (hne : way ≠ [])
    (hway : ∀ n ∈ way, PathName n) (hkept : s.ignores (slashed way) = false) :
    s.includes (slashed way) = true ↔
      options.includePaths = [] ∨ ∃ p ∈ options.includePaths, Tidy p ∧ wantedNames p <+: way := by
  have hslash : ∀ n ∈ way, '/' ∉ n.toList := fun n hn => (hway n hn).slashless
  rw [Scope.includes_iff,Scope.ofRoot_wanted hscope]
  simp only [hkept,true_and,List.map_eq_nil_iff,List.mem_map,exists_exists_and_eq_and,
    under_iff_prefix hne hslash,pieces_prefix_iff hway]

def workshop : FileSystem where
  tree := .dir [("docs",.dir [("B.java",.file [])]),("src",.dir [("A.java",.file [])])]

def workshopScope (wanted : List String) : Scope where
  root := pathOf []
  rules := defaultExcludes.map fun text => ⟨true,.ancestors :: text.toList.map fun c => .one (.only c)⟩
  wanted

theorem tidy_paths_take_in_what_is_below_workshop :
    Scope.ofRoot workshop (pathOf []) { includePaths := ["src\\","./docs"] } =
        .ok (workshopScope ["src","./docs"],[]) ∧
      Tidy "src\\" ∧ (workshopScope ["src","./docs"]).includes (slashed ["src","A.java"]) = true ∧
      ¬ Tidy "./docs" ∧ (workshopScope ["src","./docs"]).includes (slashed ["docs","B.java"]) = false := by
  have hscope : Scope.ofRoot workshop (pathOf []) { includePaths := ["src\\","./docs"] } =
      .ok (workshopScope ["src","./docs"],[]) := by cbv
  have hsrc : ∀ n ∈ ["src","A.java"], ProperName n := by decide
  have hdocs : ∀ n ∈ ["docs","B.java"], ProperName n := by decide
  have htidy : Tidy "src\\" := by decide
  have huntidy : ¬ Tidy "./docs" := by decide
  refine ⟨hscope,htidy,?_,huntidy,?_⟩
  · refine (tidy_paths_take_in_what_is_below hscope (by simp) (fun n hn => (hsrc n hn).pathName)
      (by decide +kernel)).mpr (.inr ⟨"src\\",by simp,htidy,by decide⟩)
  · rw [← Bool.not_eq_true,tidy_paths_take_in_what_is_below hscope (by simp) (fun n hn => (hdocs n hn).pathName)
      (by decide +kernel)]
    decide

theorem dotted_path_takes_nothing_in :
    Scope.ofRoot workshop (pathOf []) { includePaths := ["./src"] } = .ok (workshopScope ["./src"],[]) ∧
      (workshopScope ["./src"]).ignores (slashed ["src","A.java"]) = false ∧
      wantedNames "./src" <+: ["src","A.java"] ∧
      (workshopScope ["./src"]).includes (slashed ["src","A.java"]) = false := by
  exact ⟨by cbv,by decide +kernel,by decide,by decide +kernel⟩

end ClassDiagram
