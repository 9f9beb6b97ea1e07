import ClassDiagram.Project.Scope
import ClassDiagram.Proofs.FileSystem.LinkFree
import ClassDiagram.Proofs.Text.Cutting
import Mathlib.Data.List.Nodup

/-!
The files below a directory as rows of names. A scan names a file by a text, with a slash between two names;
in a tree without links these texts are those of the ways that lead to the files. The ways that go through a
directory are the ways from that directory on, unless it, or a directory on the way to it, is left out.
-/

namespace ClassDiagram

def slashed (way : List String) : String := "/".intercalate way

theorem slashed_ne_empty {way : List String} (hne : way ≠ []) (h : ∀ n ∈ way, n ≠ "") :
    slashed way ≠ "" := by
  cases way with
  | nil => exact absurd rfl hne
  | cons name way =>
    have hname := h name (by simp)
    by_cases hw : way = []
    · simpa [slashed,hw] using hname
    · rw [slashed,String.intercalate_cons_of_ne_nil hw]
      intro hempty
      have hchars := congrArg String.toList hempty
      simp at hchars

theorem slashed_append {way more : List String} (hway : way ≠ []) (hmore : more ≠ []) :
    slashed (way ++ more) = slashed way ++ "/" ++ slashed more :=
  String.intercalate_append_of_ne_nil hway hmore

theorem below_slashed {way : List String} (h : ∀ n ∈ way, n ≠ "") (name : String) :
    below (slashed way) name = slashed (way ++ [name]) := by
  by_cases hw : way = []
  · simp [hw,below,slashed]
  · rw [below,if_neg (slashed_ne_empty hw h),slashed_append hw (by simp)]
    simp [slashed]

theorem splitAtEach_slashed {way : List String} (hne : way ≠ []) (h : ∀ n ∈ way, '/' ∉ n.toList) :
    Text.splitAtEach (· = '/') (slashed way).toList = way.map String.toList :=
  Text.splitAtEach_intercalate rfl hne h

theorem head?_slashed {way : List String} (h : ∀ n ∈ way, ProperName n) :
    (slashed way).toList.head? ≠ some '/' := by
  cases way with
  | nil => simp [slashed]
  | cons name way =>
    have hname := h name (by simp)
    have hhead : (slashed (name :: way)).toList.head? = name.toList.head? := by
      have hchars : name.toList ≠ [] := by simpa using hname.ne_empty
      by_cases hw : way = []
      · simp [slashed,hw]
      · rw [slashed,String.intercalate_cons_of_ne_nil hw,String.append_assoc,String.toList_append,
          List.head?_append_of_ne_nil _ hchars]
    rw [hhead]
    exact fun hslash => hname.slashless (List.mem_of_head? hslash)

theorem rootOf_of_head? {text : String} (h : text.toList.head? ≠ some '/') : Path.rootOf text = "" := by
  rw [Path.rootOf]
  split
  · rename_i heq
    simp [heq] at h
  · rename_i heq
    simp [heq] at h
  · rename_i heq
    simp [heq] at h
  · rfl

-- What a name in a path can be: `..` is one of them.
structure PathName (name : String) : Prop where
  ne_empty : name ≠ ""
  ne_dot : name ≠ "."
  slashless : '/' ∉ name.toList

theorem ProperName.pathName {name : String} (h : ProperName name) : PathName name :=
  ⟨h.ne_empty,h.ne_dot,h.slashless⟩

theorem partsOf_slashed {way : List String} (h : ∀ n ∈ way, PathName n) :
    Path.partsOf (slashed way) = way := by
  by_cases hw : way = []
  · subst hw
    decide
  · have hkept : way.filter (fun n => n ≠ "" && n ≠ ".") = way := by
      rw [List.filter_eq_self]
      intro n hn
      simp [(h n hn).ne_empty,(h n hn).ne_dot]
    rw [Path.partsOf,splitAtEach_slashed hw fun n hn => (h n hn).slashless,List.map_map]
    simpa [Function.comp_def] using hkept

theorem ofString_slashed {way : List String} (h : ∀ n ∈ way, ProperName n) :
    Path.ofString (slashed way) = { parts := way } := by
  rw [Path.ofString,rootOf_of_head? (head?_slashed h),partsOf_slashed fun n hn => (h n hn).pathName]

theorem slashed_injective {v w : List String} (hv : ∀ n ∈ v, ProperName n) (hw : ∀ n ∈ w, ProperName n)
    (h : slashed v = slashed w) : v = w := by
  have hpaths := congrArg (fun text => (Path.ofString text).parts) h
  simpa only [ofString_slashed hv,ofString_slashed hw] using hpaths

@[elab_as_elim]
theorem Entry.forest_induction {P : List (String × Entry) → Prop} (nil : P [])
    (file : ∀ name bytes rest, P rest → P ((name,.file bytes) :: rest))
    (link : ∀ name target rest, P rest → P ((name,.link target) :: rest))
    (dir : ∀ name entries rest, P entries → P rest → P ((name,.dir entries) :: rest))
    (entries : List (String × Entry)) : P entries := by
  induction hn : sizeOf entries using Nat.strongRecOn generalizing entries with
  | ind n ih =>
    subst hn
    cases entries with
    | nil => exact nil
    | cons x rest =>
      obtain ⟨name,e⟩ := x
      have hsmaller : sizeOf rest < sizeOf ((name,e) :: rest) := by
        simp only [List.cons.sizeOf_spec]
        omega
      have hrest : P rest := ih _ hsmaller _ rfl
      cases e with
      | file bytes => exact file name bytes rest hrest
      | link target => exact link name target rest hrest
      | dir entries =>
        refine dir name entries rest (ih _ ?_ _ rfl) hrest
        simp only [List.cons.sizeOf_spec,Prod.mk.sizeOf_spec,Entry.dir.sizeOf_spec]
        omega

-- The same walk as that of a scan, with the names on the way kept apart.
mutual

def waysAmong (skips : List String → Bool) (way : List String) : List (String × Entry) → List (List String)
  | [] => []
  | (name, e) :: rest => waysAt skips (way ++ [name]) e ++ waysAmong skips way rest

def waysAt (skips : List String → Bool) (way : List String) : Entry → List (List String)
  | .file _ | .link _ => [way]
  | .dir entries => if skips way then [] else waysAmong skips way entries

end

section Ways

variable {skips : List String → Bool} {way w : List String} {entries : List (String × Entry)}

theorem proper_append {name : String} (hway : ∀ n ∈ way, ProperName n) (hname : ProperName name) :
    ∀ n ∈ way ++ [name], ProperName n := by
  intro n hn
  rcases List.mem_append.mp hn with hn | hn
  · exact hway n hn
  · rwa [List.mem_singleton.mp hn]

theorem filesAmong_eq (skips : String → Bool) (toDirectory : Place → Bool) (here : Place)
    (hplain : Entry.PlainAll entries) (hway : ∀ n ∈ way, ProperName n) :
    filesAmong skips toDirectory here (slashed way) entries =
      (waysAmong (fun w => skips (slashed w ++ "/")) way entries).map slashed := by
  induction entries using Entry.forest_induction generalizing way here with
  | nil => rw [filesAmong,waysAmong,List.map_nil]
  | file name bytes rest ih =>
    rw [Entry.PlainAll] at hplain
    have hbelow := below_slashed (fun n hn => (hway n hn).ne_empty) name
    rw [filesAmong,filesAt,waysAmong,waysAt,ih here hplain.2.2 hway,hbelow]
    simp
  | link name target rest ih =>
    rw [Entry.PlainAll,Entry.Plain] at hplain
    exact hplain.2.1.elim
  | dir name inner rest ihi ihr =>
    rw [Entry.PlainAll,Entry.Plain] at hplain
    have hbelow := below_slashed (fun n hn => (hway n hn).ne_empty) name
    rw [filesAmong,filesAt,waysAmong,waysAt,ihr here hplain.2.2 hway,hbelow,List.map_append]
    split
    · rfl
    · rw [ihi _ hplain.2.1.2 (proper_append hway hplain.1)]

theorem waysAmong_eq_flatMap (skips : List String → Bool) (way : List String)
    (entries : List (String × Entry)) :
    waysAmong skips way entries = entries.flatMap fun x => waysAt skips (way ++ [x.1]) x.2 := by
  induction entries with
  | nil => rw [waysAmong,List.flatMap_nil]
  | cons x rest ih => rw [waysAmong,ih,List.flatMap_cons]

theorem prefix_of_mem_waysAmong (hw : w ∈ waysAmong skips way entries) : way <+: w := by
  induction entries using Entry.forest_induction generalizing way with
  | nil => simp [waysAmong] at hw
  | file name bytes rest ih =>
    rw [waysAmong,waysAt,List.mem_append,List.mem_singleton] at hw
    rcases hw with rfl | hw
    · exact List.prefix_append _ _
    · exact ih hw
  | link name target rest ih =>
    rw [waysAmong,waysAt,List.mem_append,List.mem_singleton] at hw
    rcases hw with rfl | hw
    · exact List.prefix_append _ _
    · exact ih hw
  | dir name inner rest ihi ihr =>
    rw [waysAmong,waysAt,List.mem_append] at hw
    rcases hw with hw | hw
    · split at hw
      · simp at hw
      · exact (List.prefix_append way [name]).trans (ihi hw)
    · exact ihr hw

theorem prefix_of_mem_waysAt {e : Entry} (hw : w ∈ waysAt skips way e) : way <+: w := by
  cases e with
  | file bytes =>
    rw [waysAt,List.mem_singleton] at hw
    exact hw ▸ List.prefix_refl _
  | link target =>
    rw [waysAt,List.mem_singleton] at hw
    exact hw ▸ List.prefix_refl _
  | dir entries =>
    rw [waysAt] at hw
    split at hw
    · simp at hw
    · exact prefix_of_mem_waysAmong hw

theorem exists_of_mem_waysAmong (hw : w ∈ waysAmong skips way entries) :
    ∃ name ∈ entries.map Prod.fst, way ++ [name] <+: w := by
  rw [waysAmong_eq_flatMap,List.mem_flatMap] at hw
  obtain ⟨x,hx,hw⟩ := hw
  exact ⟨x.1,List.mem_map_of_mem hx,prefix_of_mem_waysAt hw⟩

theorem name_unique {a b : String} (ha : way ++ [a] <+: w) (hb : way ++ [b] <+: w) : a = b := by
  have hbegins := List.prefix_of_prefix_length_le ha hb (by simp)
  have heq := hbegins.eq_of_length (by simp)
  simpa using heq

theorem proper_of_mem_waysAmong (hplain : Entry.PlainAll entries) (hway : ∀ n ∈ way, ProperName n)
    (hw : w ∈ waysAmong skips way entries) : ∀ n ∈ w, ProperName n := by
  induction entries using Entry.forest_induction generalizing way with
  | nil => simp [waysAmong] at hw
  | file name bytes rest ih =>
    rw [Entry.PlainAll] at hplain
    rw [waysAmong,waysAt,List.mem_append,List.mem_singleton] at hw
    rcases hw with rfl | hw
    · exact proper_append hway hplain.1
    · exact ih hplain.2.2 hway hw
  | link name target rest ih =>
    rw [Entry.PlainAll,Entry.Plain] at hplain
    exact hplain.2.1.elim
  | dir name inner rest ihi ihr =>
    rw [Entry.PlainAll,Entry.Plain] at hplain
    rw [waysAmong,waysAt,List.mem_append] at hw
    rcases hw with hw | hw
    · split at hw
      · simp at hw
      · exact ihi hplain.2.1.2 (proper_append hway hplain.1) hw
    · exact ihr hplain.2.2 hway hw

theorem nodup_waysAmong_cons {name : String} {e : Entry} (hname : name ∉ entries.map Prod.fst)
    (hat : (waysAt skips (way ++ [name]) e).Nodup) (hrest : (waysAmong skips way entries).Nodup) :
    (waysAmong skips way ((name,e) :: entries)).Nodup := by
  rw [waysAmong]
  refine List.nodup_append.mpr ⟨hat,hrest,?_⟩
  rintro v hv _ hw rfl
  obtain ⟨other,hother,hthrough⟩ := exists_of_mem_waysAmong hw
  exact hname (name_unique (prefix_of_mem_waysAt hv) hthrough ▸ hother)

theorem nodup_waysAmong (hplain : (Entry.dir entries).Plain) : (waysAmong skips way entries).Nodup := by
  rw [Entry.Plain] at hplain
  obtain ⟨hnames,hplain⟩ := hplain
  induction entries using Entry.forest_induction generalizing way with
  | nil => simp [waysAmong]
  | file name bytes rest ih =>
    rw [List.map_cons,List.nodup_cons] at hnames
    rw [Entry.PlainAll] at hplain
    exact nodup_waysAmong_cons hnames.1 (by simp [waysAt]) (ih hnames.2 hplain.2.2)
  | link name target rest ih =>
    rw [Entry.PlainAll,Entry.Plain] at hplain
    exact hplain.2.1.elim
  | dir name inner rest ihi ihr =>
    rw [List.map_cons,List.nodup_cons] at hnames
    rw [Entry.PlainAll,Entry.Plain] at hplain
    refine nodup_waysAmong_cons hnames.1 ?_ (ihr hnames.2 hplain.2.2)
    rw [waysAt]
    split
    · exact List.nodup_nil
    · exact ihi hplain.2.1.1 hplain.2.1.2

theorem filter_waysAmong_name {name : String} {e : Entry} (hnames : (entries.map Prod.fst).Nodup)
    (hl : entries.lookup name = some e) (sub : List String) :
    (waysAmong skips way entries).filter (fun w => (way ++ name :: sub).isPrefixOf w) =
      (waysAt skips (way ++ [name]) e).filter fun w => (way ++ name :: sub).isPrefixOf w := by
  have hthrough : ∀ {v : List String}, (way ++ name :: sub).isPrefixOf v = true → way ++ [name] <+: v := by
    intro v hv
    have hsub : way ++ [name] <+: way ++ name :: sub := ⟨sub,by simp⟩
    exact hsub.trans (List.isPrefixOf_iff_prefix.mp hv)
  induction entries with
  | nil => simp at hl
  | cons x rest ih =>
    obtain ⟨n,e'⟩ := x
    rw [List.map_cons,List.nodup_cons] at hnames
    rw [waysAmong,List.filter_append]
    rw [List.lookup_cons] at hl
    split at hl
    · rename_i hn
      obtain rfl := beq_iff_eq.mp hn
      obtain rfl := Option.some.inj hl
      have hrest : (waysAmong skips way rest).filter (fun w => (way ++ name :: sub).isPrefixOf w) = [] := by
        rw [List.filter_eq_nil_iff]
        intro v hv hpre
        obtain ⟨other,hother,hv⟩ := exists_of_mem_waysAmong hv
        exact hnames.1 (name_unique hv (hthrough hpre) ▸ hother)
      rw [hrest,List.append_nil]
    · rename_i hn
      have hfirst : (waysAt skips (way ++ [n]) e').filter
          (fun w => (way ++ name :: sub).isPrefixOf w) = [] := by
        rw [List.filter_eq_nil_iff]
        intro v hv hpre
        have hsame := name_unique (prefix_of_mem_waysAt hv) (hthrough hpre)
        simp [hsame] at hn
      rw [hfirst,List.nil_append]
      exact ih hnames.2 hl

-- A directory on the way, the last one included, is left out; the one that the way starts from is not asked.
def LeavesOut (skips : List String → Bool) (way sub : List String) : Prop :=
  ∃ above, above ≠ [] ∧ above <+: sub ∧ skips (way ++ above) = true

theorem not_leavesOut_nil : ¬ LeavesOut skips way [] := by
  rintro ⟨above,hne,habove,_⟩
  exact hne (List.prefix_nil.mp habove)

theorem leavesOut_cons {name : String} {sub : List String} :
    LeavesOut skips way (name :: sub) ↔
      skips (way ++ [name]) = true ∨ LeavesOut skips (way ++ [name]) sub := by
  constructor
  · rintro ⟨above,hne,habove,hskips⟩
    cases above with
    | nil => exact absurd rfl hne
    | cons n above =>
      obtain ⟨rfl,hrest⟩ := List.cons_prefix_cons.mp habove
      by_cases hnil : above = []
      · exact .inl (hnil ▸ hskips)
      · exact .inr ⟨above,hnil,hrest,by simpa using hskips⟩
  · rintro (hskips | ⟨above,_,habove,hskips⟩)
    · exact ⟨[name],by simp,by simp,hskips⟩
    · exact ⟨name :: above,by simp,List.cons_prefix_cons.mpr ⟨rfl,habove⟩,by simpa using hskips⟩

-- The way down to a directory is followed name by name.
theorem waysAmong_through (skips : List String → Bool) (way : List String) {sub : List String}
    {inner : List (String × Entry)} (hplain : (Entry.dir entries).Plain)
    (hat : (Entry.dir entries).at? sub = some (.dir inner)) :
    (¬ LeavesOut skips way sub →
      (waysAmong skips way entries).filter (fun w => (way ++ sub).isPrefixOf w) =
        waysAmong skips (way ++ sub) inner) ∧
    (LeavesOut skips way sub →
      (waysAmong skips way entries).filter (fun w => (way ++ sub).isPrefixOf w) = []) := by
  induction sub generalizing way entries with
  | nil =>
    rw [Entry.at?_nil] at hat
    obtain rfl : entries = inner := by simpa using hat
    refine ⟨fun _ => ?_,fun h => absurd h not_leavesOut_nil⟩
    rw [List.append_nil,List.filter_eq_self]
    intro v hv
    exact List.isPrefixOf_iff_prefix.mpr (prefix_of_mem_waysAmong hv)
  | cons name sub ih =>
    obtain ⟨_,e,heq,hlookup,hrest⟩ := Entry.at?_cons_eq_some hat
    obtain rfl := Entry.dir.inj heq
    rw [Entry.Plain] at hplain
    have he := (hplain.2.lookup hlookup).2
    obtain ⟨es,rfl⟩ : ∃ es, e = .dir es := by
      cases sub with
      | nil =>
        rw [Entry.at?_nil] at hrest
        exact ⟨inner,Option.some.inj hrest⟩
      | cons n sub =>
        obtain ⟨es,_,hes,_⟩ := Entry.at?_cons_eq_some hrest
        exact ⟨es,hes⟩
    have hway : way ++ name :: sub = way ++ [name] ++ sub := by simp
    rw [filter_waysAmong_name hplain.1 hlookup,waysAt,leavesOut_cons,hway]
    split
    · rename_i hskips
      simp [hskips]
    · rename_i hskips
      have hbelow := ih (way ++ [name]) he hrest
      simpa only [hskips,Bool.false_eq_true,false_or] using hbelow

end Ways

end ClassDiagram
