import ClassDiagram.Proofs.Settings.Variables

/-!
Which source a single setting comes from. The tables of the sources are laid over each other, and a section
that two of them give is joined and not replaced. So a setting is taken whole from the first source that has
it, whatever the sources have beside it: no setting is a table, and so none is put together from two sources.
-/

namespace ClassDiagram

namespace Value

theorem over_table (old : Value) (upper : Table) :
    (∃ lower, old = .table lower ∧ Value.over old (.table upper) = .table (Table.over lower upper)) ∨
      ((∀ lower, old ≠ .table lower) ∧ Value.over old (.table upper) = .table upper) := by
  cases old with
  | table lower => exact .inl ⟨lower,rfl,by rw [Value.over]⟩
  | _ => exact .inr ⟨by simp,by rw [Value.over]; simp⟩

end Value

namespace Table

variable {lower upper : Table} {P : String → Value → Prop}

def Distinct (t : Table) : Prop := (t.map Prod.fst).Nodup

instance (t : Table) : Decidable t.Distinct := inferInstanceAs (Decidable (List.Nodup _))

theorem mem_of_lookup {t : Table} {key : String} {v : Value} (h : t.lookup key = some v) : (key,v) ∈ t := by
  obtain ⟨before,after,rfl,_⟩ := List.lookup_eq_some_iff.mp h
  simp

theorem lookup_eq_none_of {t : Table} {key : String} (h : key ∉ t.map Prod.fst) : t.lookup key = none := by
  rw [List.lookup_eq_none_iff]
  intro e he
  have hne : key ≠ e.1 := fun heq => h (heq ▸ List.mem_map_of_mem he)
  simpa using hne

theorem keys_set (t : Table) (key : String) (v : Value) :
    (t.set key v).map Prod.fst = if key ∈ t.map Prod.fst then t.map Prod.fst else t.map Prod.fst ++ [key] := by
  induction t with
  | nil => simp [set]
  | cons e rest ih =>
    obtain ⟨k,old⟩ := e
    rw [set]
    by_cases hk : k = key
    · simp [hk]
    · have hne : key ≠ k := fun he => hk he.symm
      simp only [if_neg hk,List.map_cons,ih,List.mem_cons,hne,false_or]
      split <;> simp

theorem Distinct.set {t : Table} (h : t.Distinct) (key : String) (v : Value) : (t.set key v).Distinct := by
  rw [Distinct,keys_set]
  split
  · exact h
  · rename_i hnew
    refine List.nodup_append.mpr ⟨h,by simp,?_⟩
    intro a ha b hb hab
    exact hnew (List.mem_singleton.mp hb ▸ hab ▸ ha)

theorem Distinct.over (h : lower.Distinct) (upper : Table) : (Table.over lower upper).Distinct := by
  induction upper generalizing lower with
  | nil =>
    rw [Table.over]
    exact h
  | cons e upper ih =>
    rw [Table.over]
    exact ih (h.set _ _)

theorem lookup_over (h : upper.Distinct) (lower : Table) (key : String) :
    (Table.over lower upper).lookup key =
      (upper.lookup key).elim (lower.lookup key) fun v =>
        some ((lower.lookup key).elim v (Value.over · v)) := by
  induction upper generalizing lower with
  | nil => rw [Table.over,List.lookup_nil,Option.elim_none]
  | cons e upper ih =>
    obtain ⟨k,v⟩ := e
    obtain ⟨hk,hrest⟩ := List.nodup_cons.mp h
    rw [Table.over,ih hrest]
    by_cases hkey : key = k
    · subst hkey
      rw [lookup_eq_none_of hk,lookup_set_self,List.lookup_cons_self]
      cases lower.lookup key <;> rfl
    · rw [lookup_set_of_ne _ _ hkey,List.lookup_cons,beq_false_of_ne hkey]

theorem lookup_of_mem {t : Table} (h : t.Distinct) {key : String} {v : Value} (hmem : (key,v) ∈ t) :
    t.lookup key = some v := by
  induction t with
  | nil => simp at hmem
  | cons e rest ih =>
    obtain ⟨hfirst,hrest⟩ := List.nodup_cons.mp h
    rcases List.mem_cons.mp hmem with rfl | hmem
    · exact List.lookup_cons_self
    · have hne : key ≠ e.1 := fun heq => hfirst (heq ▸ List.mem_map_of_mem hmem)
      rw [List.lookup_cons,beq_false_of_ne hne]
      exact ih hrest hmem

-- Keys stand once in a table, and once in each of its sections.
structure Keyed (t : Table) : Prop where
  distinct : t.Distinct
  inner : ∀ key entries, (key,.table entries) ∈ t → Distinct entries

theorem Keyed.over (hl : lower.Keyed) (hu : upper.Keyed) : (Table.over lower upper).Keyed := by
  refine ⟨hl.distinct.over upper,fun key entries hmem => ?_⟩
  have h := lookup_of_mem (hl.distinct.over upper) hmem
  rw [lookup_over hu.distinct] at h
  cases hupper : upper.lookup key with
  | none =>
    rw [hupper] at h
    exact hl.inner key entries (mem_of_lookup h)
  | some v =>
    have hv := hu.inner key
    rw [hupper,Option.elim_some,Option.some.injEq] at h
    cases hlower : lower.lookup key with
    | none =>
      rw [hlower,Option.elim_none] at h
      exact hv entries (mem_of_lookup (h ▸ hupper))
    | some old =>
      rw [hlower,Option.elim_some] at h
      cases v with
      | table given =>
        rcases Value.over_table old given with ⟨inner,rfl,hover⟩ | ⟨_,hover⟩
        · cases hover.symm.trans h
          exact (hl.inner key inner (mem_of_lookup hlower)).over given
        · exact Value.table.inj (hover.symm.trans h) ▸ hv given (mem_of_lookup hupper)
      | _ => cases h

theorem forall_set {t : Table} (h : ∀ e ∈ t, P e.1 e.2) {key : String} {v : Value} (hv : P key v) :
    ∀ e ∈ t.set key v, P e.1 e.2 := by
  induction t with
  | nil => simpa [set] using hv
  | cons first rest ih =>
    obtain ⟨hfirst,hrest⟩ := List.forall_mem_cons.mp h
    rw [set]
    split
    · exact List.forall_mem_cons.mpr ⟨hv,hrest⟩
    · exact List.forall_mem_cons.mpr ⟨hfirst,ih hrest⟩

theorem forall_over (hjoin : ∀ k old v, P k old → P k v → P k (Value.over old v))
    (hl : ∀ e ∈ lower, P e.1 e.2) (hu : ∀ e ∈ upper, P e.1 e.2) :
    ∀ e ∈ Table.over lower upper, P e.1 e.2 := by
  induction upper generalizing lower with
  | nil =>
    rw [Table.over]
    exact hl
  | cons first upper ih =>
    obtain ⟨hfirst,hrest⟩ := List.forall_mem_cons.mp hu
    rw [Table.over]
    refine ih (forall_set hl ?_) hrest
    split
    · rename_i old hold
      exact hjoin _ _ _ (hl _ (mem_of_lookup hold)) hfirst
    · exact hfirst

end Table

namespace Section

variable {known : List String} {given : Table}

theorem exists_of_given {name : String} {v : Value} (h : given? given name = some v) :
    ∃ k, (k,v) ∈ given ∧ (k = name ∨ Text.lower k = name) := by
  rw [given?] at h
  split at h
  · rename_i w hw
    obtain rfl := Option.some.inj h
    exact ⟨name,Table.mem_of_lookup hw,.inl rfl⟩
  · obtain ⟨e,he,rfl⟩ := Option.map_eq_some_iff.mp h
    exact ⟨e.1,List.mem_of_find?_eq_some he,.inr (by simpa using List.find?_some he)⟩

theorem mem_knownFirst {name : String} {v : Value} (h : (name,v) ∈ knownFirst known given) :
    (name ∈ known ∧ given? given name = some v) ∨ ((name,v) ∈ given ∧ Text.lower name ∉ known) := by
  rcases List.mem_append.mp h with h | h
  · obtain ⟨n,hn,hsome⟩ := List.mem_filterMap.mp h
    obtain ⟨w,hw,heq⟩ := Option.map_eq_some_iff.mp hsome
    obtain ⟨rfl,rfl⟩ := Prod.mk.inj heq
    exact .inl ⟨hn,hw⟩
  · obtain ⟨hmem,hunknown⟩ := List.mem_filter.mp h
    exact .inr ⟨hmem,by simpa using hunknown⟩

theorem keys_sublist (known : List String) (given : Table) :
    ((known.filterMap fun name => (given? given name).map (name,·)).map Prod.fst).Sublist known := by
  induction known with
  | nil => exact List.Sublist.refl []
  | cons name known ih =>
    rw [List.filterMap_cons]
    cases given? given name with
    | none => exact ih.cons name
    | some v => exact ih.cons_cons name

theorem keyed_knownFirst (hnodup : known.Nodup) (hlower : ∀ n ∈ known, Text.lower n = n)
    (h : given.Keyed) : (knownFirst known given).Keyed := by
  constructor
  · have hkeys := keys_sublist known given
    rw [Table.Distinct,knownFirst,List.map_append]
    refine List.nodup_append.mpr ⟨hnodup.sublist hkeys,
      h.distinct.sublist (List.filter_sublist.map _),?_⟩
    rintro a ha _ hb rfl
    obtain ⟨e,he,rfl⟩ := List.mem_map.mp hb
    have hknown := hkeys.subset ha
    have hunknown := of_decide_eq_true (List.mem_filter.mp he).2
    exact hunknown ((hlower _ hknown).symm ▸ hknown)
  · intro key entries hmem
    rcases mem_knownFirst hmem with ⟨_,hgiven⟩ | ⟨hrest,_⟩
    · obtain ⟨k,hk,_⟩ := exists_of_given hgiven
      exact h.inner k entries hk
    · exact h.inner key entries hrest

end Section

namespace Settings

def sectionKeys : List String := ["diagram","scan"]

def IsSection (t : Table) (key : String) : Prop := ∀ v, t.lookup key = some v → ∃ entries, v = .table entries

variable {lower upper : Table} {key : String} {P : String → Value → Prop}

theorem lookup_sectionTable_over (hu : upper.Keyed) (hsection : IsSection upper key) (name : String) :
    (sectionTable (Table.over lower upper) key).lookup name =
      ((sectionTable upper key).lookup name).elim ((sectionTable lower key).lookup name) fun v =>
        some (((sectionTable lower key).lookup name).elim v (Value.over · v)) := by
  have hover := Table.lookup_over hu.distinct lower key
  cases hupper : upper.lookup key with
  | none =>
    rw [hupper,Option.elim_none] at hover
    rw [sectionTable,hover,sectionTable,sectionTable,hupper]
    rfl
  | some v =>
    obtain ⟨given,rfl⟩ := hsection v hupper
    have hgiven : sectionTable upper key = given := by rw [sectionTable,hupper]
    rw [hupper,Option.elim_some] at hover
    rw [hgiven,sectionTable,hover]
    have halone : given.lookup name = (given.lookup name).elim none fun v => some v := by
      cases given.lookup name <;> rfl
    cases hlower : lower.lookup key with
    | none =>
      rw [sectionTable,hlower]
      exact halone
    | some old =>
      rw [Option.elim_some]
      rcases Value.over_table old given with ⟨inner,rfl,hjoined⟩ | ⟨hother,hjoined⟩
      · rw [hjoined,sectionTable,hlower]
        exact Table.lookup_over (hu.inner key given (Table.mem_of_lookup hupper)) inner name
      · have hnone : sectionTable lower key = [] := by
          rw [sectionTable,hlower]
          split
          · rename_i inner heq
            exact (hother inner (Option.some.inj heq)).elim
          · rfl
        rw [hjoined,hnone]
        exact halone

theorem forall_sectionTable_over (hjoin : ∀ k old v, P k old → P k v → P k (Value.over old v))
    (hu : upper.Distinct) (hlower : ∀ e ∈ sectionTable lower key, P e.1 e.2)
    (hupper : ∀ e ∈ sectionTable upper key, P e.1 e.2) :
    ∀ e ∈ sectionTable (Table.over lower upper) key, P e.1 e.2 := by
  have hover := Table.lookup_over hu lower key
  cases hlookup : upper.lookup key with
  | none =>
    rw [hlookup,Option.elim_none] at hover
    rw [sectionTable,hover]
    exact hlower
  | some v =>
    rw [hlookup,Option.elim_some] at hover
    cases v with
    | table given =>
      have hgiven : ∀ e ∈ given, P e.1 e.2 := by rwa [sectionTable,hlookup] at hupper
      rw [sectionTable,hover]
      cases hbelow : lower.lookup key with
      | none => exact hgiven
      | some old =>
        rw [Option.elim_some]
        rcases Value.over_table old given with ⟨inner,rfl,hjoined⟩ | ⟨_,hjoined⟩
        · rw [hjoined]
          refine Table.forall_over hjoin ?_ hgiven
          rwa [sectionTable,hbelow] at hlower
        · rw [hjoined]
          exact hgiven
    | _ =>
      rw [sectionTable,hover]
      cases lower.lookup key <;> simp [Value.over]

end Settings

inductive Leaf where
  | projectRoot
  | workers
  | fieldVisibilities
  | methodVisibilities
  | showPackage
  | showConstructors
  | showFieldRelationships
  | showMethodRelationships
  | includePaths
  | excludePatterns
  deriving DecidableEq, Repr

namespace Leaf

def Holds : Leaf → Type
  | .projectRoot => Path
  | .workers => Int
  | .fieldVisibilities | .methodVisibilities => List Visibility
  | .showPackage | .showConstructors | .showFieldRelationships | .showMethodRelationships => Bool
  | .includePaths | .excludePatterns => List String

def get (s : Settings) : (l : Leaf) → l.Holds
  | .projectRoot => s.projectRoot
  | .workers => s.workers
  | .fieldVisibilities => s.diagram.fieldVisibilities
  | .methodVisibilities => s.diagram.methodVisibilities
  | .showPackage => s.diagram.showPackage
  | .showConstructors => s.diagram.showConstructors
  | .showFieldRelationships => s.diagram.showFieldRelationships
  | .showMethodRelationships => s.diagram.showMethodRelationships
  | .includePaths => s.scan.includePaths
  | .excludePatterns => s.scan.excludePatterns

def check : (l : Leaf) → Value → Checked l.Holds
  | .projectRoot => Check.path
  | .workers => Check.int
  | .fieldVisibilities | .methodVisibilities => Check.visibilities
  | .showPackage | .showConstructors | .showFieldRelationships | .showMethodRelationships => Check.bool
  | .includePaths | .excludePatterns => Check.texts

-- The section that a setting belongs to.
def home? : Leaf → Option String
  | .projectRoot | .workers => none
  | .includePaths | .excludePatterns => some "scan"
  | _ => some "diagram"

def name : Leaf → String
  | .projectRoot => "project_root"
  | .workers => "workers"
  | .fieldVisibilities => "field_visibilities"
  | .methodVisibilities => "method_visibilities"
  | .showPackage => "show_package"
  | .showConstructors => "show_constructors"
  | .showFieldRelationships => "show_field_relationships"
  | .showMethodRelationships => "show_method_relationships"
  | .includePaths => "include_paths"
  | .excludePatterns => "exclude_patterns"

def sectionNames (key : String) : List SettingName :=
  if key = "scan" then ScanOptions.settingNames else DiagramOptions.settingNames

def siblings (l : Leaf) : List SettingName :=
  match l.home? with
  | none => []
  | some key => sectionNames key

def standard (current : Path) : (l : Leaf) → l.Holds
  | .projectRoot => current
  | .workers => (1 : Int)
  | .fieldVisibilities | .methodVisibilities => Vocabulary.members
  | .showPackage | .showConstructors | .showFieldRelationships | .showMethodRelationships => true
  | .includePaths | .excludePatterns => ([] : List String)

def suppliedBy (t : Table) (l : Leaf) : Option Value :=
  match l.home? with
  | none => t.lookup l.name
  | some key => (Settings.sectionTable t key).lookup l.name

theorem refuses (l : Leaf) : Section.RefusesTables l.check := by
  intro entries a h
  cases l <;> cases h

theorem suppliedBy_top {l : Leaf} (h : l.home? = none) (t : Table) : l.suppliedBy t = t.lookup l.name := by
  rw [suppliedBy,h]

theorem suppliedBy_home {l : Leaf} {key : String} (h : l.home? = some key) (t : Table) :
    l.suppliedBy t = (Settings.sectionTable t key).lookup l.name := by
  rw [suppliedBy,h]

-- A table has nothing for a setting, whatever the capitals.
def AbsentFrom (t : Table) (l : Leaf) : Prop :=
  match l.home? with
  | none => t.lookup l.name = none
  | some key => ∀ e ∈ Settings.sectionTable t key, Text.lower e.1 ≠ l.name

theorem home_mem (l : Leaf) {key : String} (h : l.home? = some key) : key ∈ Settings.sectionKeys := by
  cases l with
  | projectRoot | workers => cases h
  | _ =>
    cases h
    decide

theorem siblings_home {l : Leaf} {key : String} (h : l.home? = some key) : l.siblings = sectionNames key := by
  rw [siblings,h]

theorem name_mem_siblings (l : Leaf) {key : String} (h : l.home? = some key) :
    l.name ∈ l.siblings.map SettingName.name := by
  cases l with
  | projectRoot | workers => cases h
  | _ => decide

theorem suppliedBy_over {upper : Table} (l : Leaf) (lower : Table) (hu : upper.Keyed)
    (hsection : ∀ key, l.home? = some key → Settings.IsSection upper key) :
    l.suppliedBy (Table.over lower upper) = (l.suppliedBy upper).elim (l.suppliedBy lower) fun v =>
      some ((l.suppliedBy lower).elim v (Value.over · v)) := by
  cases hhome : l.home? with
  | none =>
    simp only [suppliedBy_top hhome]
    exact Table.lookup_over hu.distinct lower l.name
  | some key =>
    simp only [suppliedBy_home hhome]
    exact Settings.lookup_sectionTable_over hu (hsection key hhome) l.name

theorem AbsentFrom.over {lower upper : Table} {l : Leaf} (hu : upper.Distinct) (hlower : l.AbsentFrom lower)
    (hupper : l.AbsentFrom upper) : l.AbsentFrom (Table.over lower upper) := by
  cases hhome : l.home? with
  | none =>
    simp only [AbsentFrom,hhome] at hlower hupper ⊢
    rw [Table.lookup_over hu,hupper,Option.elim_none,hlower]
  | some key =>
    simp only [AbsentFrom,hhome] at hlower hupper ⊢
    exact Settings.forall_sectionTable_over (P := fun k _ => Text.lower k ≠ l.name) (fun _ _ _ h _ => h) hu
      hlower hupper

end Leaf

namespace Settings

variable {current : Path} {env : Environment} {t : Table} {s : Settings}

-- Where a setting is looked up in the end: among the variables of its section and, over them, what is given.
def settled (l : Leaf) (own t : Table) : Table :=
  match l.home? with
  | none => t
  | some key => Table.over own (Section.knownFirst (l.siblings.map SettingName.name) (sectionTable t key))

theorem reads (h : ofTable current env t = .ok s) (l : Leaf) :
    ∃ own, ownVariables env l.siblings = .ok own ∧
      Check.setting (settled l own t) l.name (l.standard current) l.check = .ok (l.get s) := by
  obtain ⟨hroot,hworkers,hdiagram,hscan⟩ := ofTable_eq_ok h
  obtain ⟨own,hown,hd⟩ := bind_eq_ok.mp hdiagram
  obtain ⟨other,hother,ho⟩ := bind_eq_ok.mp hscan
  obtain ⟨hfields,hmethods,hpackage,hconstructors,hfieldLines,hmethodLines⟩ :=
    DiagramOptions.check_eq_ok (mapError_eq_ok.mp hd)
  obtain ⟨hinclude,hexclude⟩ := ScanOptions.check_eq_ok (mapError_eq_ok.mp ho)
  cases l with
  | projectRoot => exact ⟨[],rfl,hroot⟩
  | workers => exact ⟨[],rfl,hworkers⟩
  | fieldVisibilities => exact ⟨own,hown,hfields⟩
  | methodVisibilities => exact ⟨own,hown,hmethods⟩
  | showPackage => exact ⟨own,hown,hpackage⟩
  | showConstructors => exact ⟨own,hown,hconstructors⟩
  | showFieldRelationships => exact ⟨own,hown,hfieldLines⟩
  | showMethodRelationships => exact ⟨own,hown,hmethodLines⟩
  | includePaths => exact ⟨other,hother,hinclude⟩
  | excludePatterns => exact ⟨other,hother,hexclude⟩

end Settings

theorem renameKnown_distinct (known : List String) (t : Table) : (renameKnown known t).Distinct := by
  have hfold : ∀ (t renamed : Table), renamed.Distinct →
      (t.foldl (fun renamed e => Table.set renamed (knownName known e.1) e.2) renamed).Distinct := by
    intro t
    induction t with
    | nil => exact fun _ h => h
    | cons e t ih => exact fun renamed h => ih _ (h.set _ _)
  exact hfold t [] List.nodup_nil

theorem sectionVariables_distinct {env : Environment} {variable_ : String} {settings : List SettingName}
    {entries : Table} (h : sectionVariables env variable_ settings = some (some (.table entries))) :
    entries.Distinct := by
  rw [sectionVariables] at h
  split at h
  · obtain ⟨t,_,h⟩ := Option.bind_eq_some_iff.mp h
    split at h
    · cases h
    · cases h
      exact renameKnown_distinct _ _
  · obtain ⟨v,_,h⟩ := Option.bind_eq_some_iff.mp h
    split at h
    · cases h
    · obtain ⟨singles,_,h⟩ := Option.bind_eq_some_iff.mp h
      cases h
      exact renameKnown_distinct _ _
    · rename_i hother
      cases h
      exact (hother _ rfl).elim

namespace Settings

variable {env : Environment} {name : String} {t : Table}

theorem sectionVariable_entries {settings : List SettingName} (h : sectionVariable env name settings = .ok t) :
    (t.map Prod.fst).Sublist [name] ∧ ∀ key entries, (key,.table entries) ∈ t → Table.Distinct entries := by
  rw [sectionVariable] at h
  split at h
  · cases h
  · cases h
    simp
  · rename_i v hv
    cases h
    refine ⟨by simp,fun key entries hmem => ?_⟩
    obtain ⟨rfl,rfl⟩ := Prod.mk.inj (List.mem_singleton.mp hmem)
    exact sectionVariables_distinct hv

theorem plainVariable_entries (env : Environment) (name : String) :
    ((plainVariable env name).map Prod.fst).Sublist [name] ∧
      ∀ e ∈ plainVariable env name, ∃ text, e.2 = .text text := by
  rw [plainVariable]
  split <;> simp

theorem keyed_fromEnvironment (h : fromEnvironment env = .ok t) : t.Keyed := by
  obtain ⟨diagram,hdiagram,h⟩ := bind_eq_ok.mp h
  obtain ⟨scan,hscan,h⟩ := bind_eq_ok.mp h
  obtain rfl := pure_eq_ok.mp h
  obtain ⟨hdkeys,hdinner⟩ := sectionVariable_entries hdiagram
  obtain ⟨hskeys,hsinner⟩ := sectionVariable_entries hscan
  obtain ⟨hrkeys,hrtext⟩ := plainVariable_entries env "project_root"
  obtain ⟨hwkeys,hwtext⟩ := plainVariable_entries env "workers"
  constructor
  · have hkeys := ((hrkeys.append hwkeys).append hdkeys).append hskeys
    simp only [← List.map_append] at hkeys
    exact List.Nodup.sublist hkeys (by decide)
  · intro key entries hmem
    simp only [List.mem_append] at hmem
    rcases hmem with ((hmem | hmem) | hmem) | hmem
    · obtain ⟨text,htext⟩ := hrtext _ hmem
      cases htext
    · obtain ⟨text,htext⟩ := hwtext _ hmem
      cases htext
    · exact hdinner key entries hmem
    · exact hsinner key entries hmem

end Settings

end ClassDiagram
