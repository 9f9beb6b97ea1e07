import ClassDiagram.FileSystem.Resolve

/-!
Trees of files without links, in which a directory has at most one entry of a name. A path then leads where
its names say, taken together with their `..`: resolving it never fails, and a directory that it leads to
stands in the place that it resolves to.
-/

namespace ClassDiagram

structure ProperName (name : String) : Prop where
  ne_empty : name ≠ ""
  ne_dot : name ≠ "."
  ne_dots : name ≠ ".."
  slashless : '/' ∉ name.toList

instance (name : String) : Decidable (ProperName name) :=
  decidable_of_iff (name ≠ "" ∧ name ≠ "." ∧ name ≠ ".." ∧ '/' ∉ name.toList)
    ⟨fun ⟨hempty,hdot,hdots,hslash⟩ => ⟨hempty,hdot,hdots,hslash⟩,
      fun h => ⟨h.ne_empty,h.ne_dot,h.ne_dots,h.slashless⟩⟩

namespace Entry

mutual

def Plain : Entry → Prop
  | .file _ => True
  | .link _ => False
  | .dir entries => (entries.map Prod.fst).Nodup ∧ PlainAll entries

def PlainAll : List (String × Entry) → Prop
  | [] => True
  | (name, e) :: rest => ProperName name ∧ e.Plain ∧ PlainAll rest

end

theorem PlainAll.lookup {entries : List (String × Entry)} (h : PlainAll entries) {name : String}
    {e : Entry} (hl : entries.lookup name = some e) : ProperName name ∧ e.Plain := by
  induction entries with
  | nil => simp at hl
  | cons x rest ih =>
    obtain ⟨n,e'⟩ := x
    rw [PlainAll] at h
    rw [List.lookup_cons] at hl
    split at hl
    · rename_i hn
      obtain rfl := Option.some.inj hl
      rw [beq_iff_eq] at hn
      exact ⟨hn ▸ h.1,h.2.1⟩
    · exact ih h.2.2 hl

theorem at?_nil (e : Entry) : e.at? [] = some e := by rw [at?]

theorem at?_dir (entries : List (String × Entry)) (name : String) (rest : Place) :
    (Entry.dir entries).at? (name :: rest) = (entries.lookup name).bind fun e => e.at? rest := by
  rw [at?]
  cases entries.lookup name <;> rfl

theorem at?_cons_eq_some {e e' : Entry} {name : String} {rest : Place}
    (h : e.at? (name :: rest) = some e') :
    ∃ entries inner, e = .dir entries ∧ entries.lookup name = some inner ∧
      inner.at? rest = some e' := by
  cases e with
  | file bytes => simp [at?] at h
  | link target => simp [at?] at h
  | dir entries =>
    rw [at?_dir] at h
    obtain ⟨inner,hinner,hrest⟩ := Option.bind_eq_some_iff.mp h
    exact ⟨entries,inner,rfl,hinner,hrest⟩

theorem at?_append (e : Entry) (place more : Place) :
    e.at? (place ++ more) = (e.at? place).bind fun f => f.at? more := by
  induction place generalizing e with
  | nil => rw [List.nil_append,at?_nil,Option.bind_some]
  | cons name place ih =>
    cases e with
    | file bytes => simp [at?]
    | link target => simp [at?]
    | dir entries =>
      rw [List.cons_append,at?_dir,at?_dir,Option.bind_assoc]
      simp only [ih]

theorem Plain.at? {e e' : Entry} {place : Place} (h : e.Plain) (he : e.at? place = some e') :
    e'.Plain ∧ ∀ name ∈ place, ProperName name := by
  induction place generalizing e with
  | nil =>
    rw [at?_nil] at he
    obtain rfl := Option.some.inj he
    exact ⟨h,by simp⟩
  | cons name place ih =>
    obtain ⟨entries,inner,rfl,hlookup,hinner⟩ := at?_cons_eq_some he
    rw [Plain] at h
    obtain ⟨hname,hplain⟩ := h.2.lookup hlookup
    obtain ⟨hlast,hnames⟩ := ih hplain hinner
    exact ⟨hlast,by simpa using ⟨hname,hnames⟩⟩

theorem Plain.at?_ne_link {e : Entry} {place : Place} (h : e.Plain) (target : String) :
    e.at? place ≠ some (.link target) := by
  intro he
  have hlink := (h.at? he).1
  rwa [Plain] at hlink

end Entry

namespace FileSystem

theorem collapse_append (here : Place) (xs ys : List String) :
    collapse here (xs ++ ys) = collapse (collapse here xs) ys := List.foldl_append

theorem collapse_dots (here : Place) (rest : List String) :
    collapse here (".." :: rest) = collapse here.dropLast rest := rfl

theorem collapse_cons {name : String} (hn : name ≠ "..") (here : Place) (rest : List String) :
    collapse here (name :: rest) = collapse (here ++ [name]) rest := by
  rw [collapse,List.foldl_cons,if_neg hn]
  rfl

theorem collapse_names {names : List String} (h : ∀ n ∈ names, n ≠ "..") (here : Place) :
    collapse here names = here ++ names := by
  induction names generalizing here with
  | nil => simp [collapse]
  | cons name names ih =>
    rw [collapse_cons (h name (by simp)),ih fun n hn => h n (List.mem_cons_of_mem _ hn)]
    simp

def landing (fs : FileSystem) (p : Path) : Place := collapse (startOf fs.current p) p.parts

theorem landing_join (fs : FileSystem) (p : Path) {names : List String} (h : ∀ n ∈ names, n ≠ "..") :
    fs.landing (p.join { parts := names }) = fs.landing p ++ names := by
  have hjoin : p.join { parts := names } = { p with parts := p.parts ++ names } := by
    simp [Path.join,Path.isAbsolute]
  rw [hjoin,landing,collapse_append,collapse_names h]
  rfl

variable {fs : FileSystem}

theorem unlink_eq (plain : fs.tree.Plain) (depth : Nat) (active : List Place) (here : Place)
    (todo : List String) : fs.unlink depth active here todo = (collapse here todo,true) := by
  induction todo generalizing here with
  | nil =>
    rw [unlink]
    rfl
  | cons name rest ih =>
    rw [unlink]
    split
    · rename_i hdots
      rw [hdots,ih,collapse_dots]
    · rename_i hdots
      dsimp only
      split
      · rename_i target hlink
        exact absurd hlink (plain.at?_ne_link target)
      · rw [ih,collapse_cons hdots]

-- Where names can lead when there are no links: to the place they say, or nowhere.
theorem follow_cases (plain : fs.tree.Plain) (links : Nat) (here : Place) (todo : List String) :
    (∃ fault, fault ≠ .tooManyLinks ∧ fs.follow links here todo = .error fault) ∨
    (∃ place, fs.follow links here todo = .ok (.free place)) ∨
    ∃ e, fs.tree.at? (collapse here todo) = some e ∧
      fs.follow links here todo = .ok (.found (collapse here todo) e) := by
  induction todo generalizing here with
  | nil =>
    rw [follow.eq_def]
    cases hat : fs.tree.at? here with
    | none => exact .inl ⟨.missing,by simp,rfl⟩
    | some e => exact .inr (.inr ⟨e,hat,rfl⟩)
  | cons name rest ih =>
    rw [follow.eq_def]
    cases hat : fs.tree.at? here with
    | none => exact .inl ⟨.missing,by simp,rfl⟩
    | some e =>
      cases e with
      | file bytes => exact .inl ⟨.notDirectory,by simp,rfl⟩
      | link target => exact absurd hat (plain.at?_ne_link target)
      | dir entries =>
        dsimp only
        split
        · rename_i hdots
          rw [hdots,collapse_dots]
          exact ih here.dropLast
        · rename_i hdots
          rw [collapse_cons hdots]
          split
          · split
            · exact .inr (.inl ⟨_,rfl⟩)
            · exact .inl ⟨.missing,by simp,rfl⟩
          · rename_i target hlink
            have hthere : fs.tree.at? (here ++ [name]) = some (.link target) := by
              rw [Entry.at?_append,hat,Option.bind_some,Entry.at?_dir,hlink,Option.bind_some,
                Entry.at?_nil]
            exact absurd hthere (plain.at?_ne_link target)
          · exact ih (here ++ [name])

-- Names that are in the tree one below the other are followed without a link, unless the last one is one.
theorem follow_at {links : Nat} {here : Place} {names : List String} {e : Entry}
    (hdots : ∀ n ∈ names, n ≠ "..") (h : fs.tree.at? (here ++ names) = some e)
    (hlink : ∀ target, e ≠ .link target) :
    fs.follow links here names = .ok (.found (here ++ names) e) := by
  induction names generalizing here with
  | nil =>
    rw [List.append_nil] at h ⊢
    rw [follow.eq_def,h]
  | cons name rest ih =>
    have hname := hdots name (by simp)
    rw [Entry.at?_append] at h
    obtain ⟨f,hf,hat⟩ := Option.bind_eq_some_iff.mp h
    obtain ⟨entries,inner,rfl,hlookup,hinner⟩ := Entry.at?_cons_eq_some hat
    have hrest : fs.follow links (here ++ [name]) rest = .ok (.found (here ++ [name] ++ rest) e) := by
      refine ih (fun n hn => hdots n (List.mem_cons_of_mem _ hn)) ?_
      rw [Entry.at?_append,Entry.at?_append,hf,Option.bind_some,Entry.at?_dir,hlookup,Option.bind_some,
        Entry.at?_nil,Option.bind_some,hinner]
    rw [follow.eq_def,hf]
    dsimp only
    rw [if_neg hname,hlookup]
    cases inner with
    | link target =>
      cases rest with
      | nil =>
        rw [Entry.at?_nil] at hinner
        exact absurd (Option.some.inj hinner).symm (hlink target)
      | cons n rest => simp [Entry.at?] at hinner
    | file bytes => simpa using hrest
    | dir inside => simpa using hrest

theorem follow_names (plain : fs.tree.Plain) {links : Nat} {here : Place} {names : List String} {e : Entry}
    (h : fs.tree.at? (here ++ names) = some e) :
    fs.follow links here names = .ok (.found (here ++ names) e) := by
  refine follow_at (fun n hn => ?_) h ?_
  · exact ((plain.at? h).2 n (List.mem_append_right _ hn)).ne_dots
  · rintro target rfl
    exact plain.at?_ne_link target h

theorem locate_pathOf (plain : fs.tree.Plain) {place : Place} {e : Entry}
    (h : fs.tree.at? place = some e) : fs.locate (pathOf place) = .ok (place,e) := by
  have hfollow : fs.destination (pathOf place) = .ok (.found place e) :=
    follow_names plain (show fs.tree.at? ([] ++ place) = some e from h)
  rw [locate,hfollow]
  rfl

theorem resolve_eq (plain : fs.tree.Plain) (p : Path) : fs.resolve p = .ok (pathOf (fs.landing p)) := by
  rw [resolve,unlink_eq plain]
  dsimp only
  have hplace : pathOf (collapse (startOf fs.current p) p.parts) = pathOf (fs.landing p) := rfl
  rw [hplace]
  have hlocate : fs.locate (pathOf (fs.landing p)) ≠ .error .tooManyLinks := by
    rw [locate,destination]
    rcases follow_cases plain maxLinks (startOf fs.current (pathOf (fs.landing p)))
      (pathOf (fs.landing p)).parts with ⟨fault,hfault,h⟩ | ⟨place,h⟩ | ⟨e,_,h⟩ <;> rw [h]
    · intro he
      cases he
      exact hfault rfl
    · intro he
      cases he
    · intro he
      cases he
  split
  · rename_i he
    exact absurd he hlocate
  · rfl

theorem directory_at_landing (plain : fs.tree.Plain) {p : Path} (h : fs.isDirectory p = true) :
    ∃ entries, fs.tree.at? (fs.landing p) = some (.dir entries) := by
  rw [isDirectory,locate,destination] at h
  rcases follow_cases plain maxLinks (startOf fs.current p) p.parts with
    ⟨fault,_,hf⟩ | ⟨place,hf⟩ | ⟨e,hat,hf⟩ <;> rw [hf] at h
  · cases h
  · cases h
  · cases e with
    | file bytes => cases h
    | link target => cases h
    | dir entries => exact ⟨entries,hat⟩

end FileSystem

end ClassDiagram
