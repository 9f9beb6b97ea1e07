import ClassDiagram.Proofs.Settings.Precedence

/-!
Sources that settings can be made from. When every name in them is known, every section is a table and every
value passes its own check, the same holds of the tables laid over each other, so there are settings.
-/

namespace ClassDiagram

namespace Settings

variable {lower upper : Table} {key : String}

instance (t : Table) (key : String) : Decidable (IsSection t key) :=
  match h : t.lookup key with
  | none => .isTrue fun _ hv => nomatch h.symm.trans hv
  | some (.table entries) => .isTrue fun _ hv => ⟨entries,Option.some.inj (hv.symm.trans h)⟩
  | some .null | some (.bool _) | some (.int _) | some (.float _) | some (.text _) | some .moment
  | some (.list _) => .isFalse fun hsection => by
      obtain ⟨entries,hentries⟩ := hsection _ h
      cases hentries

theorem IsSection.over (hu : upper.Distinct) (hlower : IsSection lower key) (hupper : IsSection upper key) :
    IsSection (Table.over lower upper) key := by
  intro v hv
  rw [Table.lookup_over hu] at hv
  cases hlookup : upper.lookup key with
  | none =>
    rw [hlookup] at hv
    exact hlower v hv
  | some w =>
    obtain ⟨given,rfl⟩ := hupper w hlookup
    rw [hlookup,Option.elim_some,Option.some.injEq] at hv
    subst hv
    cases lower.lookup key with
    | none => exact ⟨given,rfl⟩
    | some old =>
      rcases Value.over_table old given with ⟨inner,_,hjoined⟩ | ⟨_,hjoined⟩
      · exact ⟨_,hjoined⟩
      · exact ⟨_,hjoined⟩

end Settings

namespace Leaf

def Accepts (l : Leaf) (v : Value) : Prop := ∃ a, l.check v = .ok a

theorem Accepts.over {l : Leaf} {v : Value} (h : l.Accepts v) (old : Value) : Value.over old v = v := by
  obtain ⟨a,ha⟩ := h
  cases v with
  | table entries => exact absurd ha (l.refuses _ _)
  | _ => rw [Value.over]; simp

instance (l : Leaf) (v : Value) : Decidable (l.Accepts v) :=
  match h : l.check v with
  | .ok a => .isTrue ⟨a,h⟩
  | .error _ => .isFalse fun ⟨_,ha⟩ => nomatch h.symm.trans ha

-- A value that suits the setting of a name in a section.
def Fits (key name : String) (v : Value) : Prop := ∃ l : Leaf, l.home? = some key ∧ l.name = name ∧ l.Accepts v

def all : List Leaf :=
  [.projectRoot,.workers,.fieldVisibilities,.methodVisibilities,.showPackage,.showConstructors,
    .showFieldRelationships,.showMethodRelationships,.includePaths,.excludePatterns]

theorem mem_all (l : Leaf) : l ∈ all := by cases l <;> decide

instance (key name : String) (v : Value) : Decidable (Fits key name v) :=
  decidable_of_iff (∃ l ∈ all, l.home? = some key ∧ l.name = name ∧ l.Accepts v)
    ⟨fun ⟨l,_,h⟩ => ⟨l,h⟩,fun ⟨l,h⟩ => ⟨l,l.mem_all,h⟩⟩

theorem find_name (l : Leaf) : all.find? (fun other => other.name = l.name) = some l := by
  cases l <;> decide

theorem name_injective {l other : Leaf} (h : l.name = other.name) : l = other := by
  have hl := find_name l
  rw [h,find_name other] at hl
  exact (Option.some.inj hl).symm

theorem Fits.accepts {key : String} {v : Value} {l : Leaf} (h : Fits key l.name v) : l.Accepts v := by
  obtain ⟨other,_,hname,haccepts⟩ := h
  exact name_injective hname ▸ haccepts

theorem Fits.name_mem {key name : String} {v : Value} (h : Fits key name v) :
    name ∈ (sectionNames key).map SettingName.name := by
  obtain ⟨l,hhome,rfl,_⟩ := h
  exact siblings_home hhome ▸ l.name_mem_siblings hhome

theorem lower_of_mem_sectionNames {key name : String} (h : name ∈ (sectionNames key).map SettingName.name) :
    Text.lower name = name := by
  have hlower : ∀ n ∈ (ScanOptions.settingNames ++ DiagramOptions.settingNames).map SettingName.name,
      Text.lower n = n := by decide
  refine hlower name ?_
  rw [List.map_append,List.mem_append]
  rw [sectionNames] at h
  split at h
  · exact .inl h
  · exact .inr h

theorem Fits.join {key name : String} {old v : Value} (h : Fits key name v) : Fits key name (Value.over old v) := by
  obtain ⟨l,hhome,hname,haccepts⟩ := h
  exact ⟨l,hhome,hname,(haccepts.over old).symm ▸ haccepts⟩

end Leaf

section Checks

variable {α : Type} {t : Table} {names : List SettingName} {key : String}

theorem setting_ok {name : String} (otherwise : α) {check : Value → Checked α}
    (h : ∀ v, t.lookup name = some v → ∃ a, check v = .ok a) :
    ∃ a, Check.setting t name otherwise check = .ok a := by
  rw [Check.setting]
  split
  · rename_i v hv
    obtain ⟨a,ha⟩ := h v hv
    exact ⟨a,by rw [ha]; rfl⟩
  · exact ⟨otherwise,rfl⟩

theorem unknownNames_eq_nil {known : List String} (h : ∀ e ∈ t, e.1 ∈ known) :
    Check.unknownNames known t = [] := by
  rw [Check.unknownNames,List.map_eq_nil_iff,List.filter_eq_nil_iff]
  intro e he
  simpa using h e he

theorem fits_lookup (h : ∀ e ∈ t, Leaf.Fits key e.1 e.2) (l : Leaf) :
    ∀ v, t.lookup l.name = some v → l.Accepts v := fun _ hv => (h _ (Table.mem_of_lookup hv)).accepts

theorem DiagramOptions.check_ok (h : ∀ e ∈ t, Leaf.Fits "diagram" e.1 e.2) : ∃ d, check t = .ok d := by
  have hknown : ∀ e ∈ t, e.1 ∈ settingNames.map SettingName.name := fun e he => (h e he).name_mem
  obtain ⟨f,hf⟩ := setting_ok Vocabulary.members (fits_lookup h .fieldVisibilities)
  obtain ⟨m,hm⟩ := setting_ok Vocabulary.members (fits_lookup h .methodVisibilities)
  obtain ⟨p,hp⟩ := setting_ok true (fits_lookup h .showPackage)
  obtain ⟨c,hc⟩ := setting_ok true (fits_lookup h .showConstructors)
  obtain ⟨fl,hfl⟩ := setting_ok true (fits_lookup h .showFieldRelationships)
  obtain ⟨ml,hml⟩ := setting_ok true (fits_lookup h .showMethodRelationships)
  refine ⟨⟨f,m,p,c,fl,ml⟩,?_⟩
  simp only [Leaf.name,Leaf.check] at hf hm hp hc hfl hml
  rw [check,unknownNames_eq_nil hknown,hf,hm,hp,hc,hfl,hml]
  rfl

theorem ScanOptions.check_ok (h : ∀ e ∈ t, Leaf.Fits "scan" e.1 e.2) : ∃ o, check t = .ok o := by
  have hknown : ∀ e ∈ t, e.1 ∈ settingNames.map SettingName.name := fun e he => (h e he).name_mem
  obtain ⟨i,hi⟩ := setting_ok ([] : List String) (fits_lookup h .includePaths)
  obtain ⟨x,hx⟩ := setting_ok ([] : List String) (fits_lookup h .excludePatterns)
  refine ⟨⟨i,x⟩,?_⟩
  simp only [Leaf.name,Leaf.check] at hi hx
  rw [check,unknownNames_eq_nil hknown,hi,hx]
  rfl

theorem Section.load_ok {check : Table → Checked α} {env : Environment} {own given : Table}
    (hcheck : ∀ t : Table, (∀ e ∈ t, Leaf.Fits key e.1 e.2) → ∃ a, check t = .ok a)
    (hown : ownVariables env (Leaf.sectionNames key) = .ok own) (hownFits : ∀ e ∈ own, Leaf.Fits key e.1 e.2)
    (hgiven : ∀ e ∈ given, Leaf.Fits key (Text.lower e.1) e.2) :
    ∃ a, load (Leaf.sectionNames key) check env given = .ok a := by
  have hfits : ∀ e ∈ knownFirst ((Leaf.sectionNames key).map SettingName.name) given,
      Leaf.Fits key e.1 e.2 := by
    rintro ⟨name,v⟩ he
    rcases mem_knownFirst he with ⟨hknown,hsome⟩ | ⟨hmem,hunknown⟩
    · obtain ⟨k,hk,hname⟩ := exists_of_given hsome
      have hlower : Text.lower k = name := by
        rcases hname with rfl | hname
        · exact Leaf.lower_of_mem_sectionNames hknown
        · exact hname
      have hfits := hgiven (k,v) hk
      rwa [hlower] at hfits
    · exact absurd (hgiven (name,v) hmem).name_mem hunknown
  obtain ⟨a,ha⟩ := hcheck _ (Table.forall_over (fun _ _ _ _ hv => hv.join) hownFits hfits)
  exact ⟨a,bind_eq_ok.mpr ⟨own,hown,mapError_eq_ok.mpr ha⟩⟩

end Checks

namespace Settings

-- A source in which each name is known, each section is a table and each value suits its setting.
structure ValidSource (t : Table) : Prop where
  known : ∀ e ∈ t, e.1 ∈ names
  sections : ∀ key ∈ sectionKeys, IsSection t key
  entries : ∀ key ∈ sectionKeys, ∀ e ∈ sectionTable t key, Leaf.Fits key (Text.lower e.1) e.2
  leaves : ∀ l ∈ Leaf.all, l.home? = none → ∀ v ∈ l.suppliedBy t, l.Accepts v

instance (t : Table) : Decidable (ValidSource t) :=
  decidable_of_iff ((∀ e ∈ t, e.1 ∈ names) ∧ (∀ key ∈ sectionKeys, IsSection t key) ∧
      (∀ key ∈ sectionKeys, ∀ e ∈ sectionTable t key, Leaf.Fits key (Text.lower e.1) e.2) ∧
      ∀ l ∈ Leaf.all, l.home? = none → ∀ v ∈ l.suppliedBy t, l.Accepts v)
    ⟨fun ⟨hk,hs,he,hl⟩ => ⟨hk,hs,he,hl⟩,fun h => ⟨h.known,h.sections,h.entries,h.leaves⟩⟩

theorem ValidSource.over {lower upper : Table} (hkeyed : upper.Keyed) (hl : ValidSource lower)
    (hu : ValidSource upper) : ValidSource (Table.over lower upper) where
  known := Table.forall_over (P := fun k _ => k ∈ names) (fun _ _ _ _ h => h) hl.known hu.known
  sections key hkey := (hl.sections key hkey).over hkeyed.distinct (hu.sections key hkey)
  entries key hkey := forall_sectionTable_over (P := fun k v => Leaf.Fits key (Text.lower k) v)
    (fun _ _ _ _ h => h.join) hkeyed.distinct (hl.entries key hkey) (hu.entries key hkey)
  leaves l hmem hhome v hv := by
    rw [Option.mem_def,l.suppliedBy_over lower hkeyed fun key hkey =>
      hu.sections key (l.home_mem hkey)] at hv
    cases hupper : l.suppliedBy upper with
    | none =>
      rw [hupper] at hv
      exact hl.leaves l hmem hhome v hv
    | some w =>
      have hw := hu.leaves l hmem hhome w hupper
      rw [hupper,Option.elim_some,Option.some.injEq] at hv
      cases hlower : l.suppliedBy lower with
      | none =>
        rw [hlower] at hv
        exact hv ▸ hw
      | some old =>
        rw [hlower,Option.elim_some,hw.over] at hv
        exact hv ▸ hw

-- The variables that have just the names of a section's settings.
def ValidVariables (env : Environment) (key : String) : Prop :=
  ∃ own, ownVariables env (Leaf.sectionNames key) = .ok own ∧ ∀ e ∈ own, Leaf.Fits key e.1 e.2

instance (env : Environment) (key : String) : Decidable (ValidVariables env key) :=
  match h : ownVariables env (Leaf.sectionNames key) with
  | .ok own =>
      decidable_of_iff (∀ e ∈ own, Leaf.Fits key e.1 e.2)
        ⟨fun hfits => ⟨own,h,hfits⟩,fun ⟨_,hown,hfits⟩ => Except.ok.inj (hown.symm.trans h) ▸ hfits⟩
  | .error _ => .isFalse fun ⟨_,hown,_⟩ => nomatch h.symm.trans hown

theorem sectionOf_ok {α : Type} {t : Table} {key : String} (label : String) {load : Table → Except SectionError α}
    (hsection : IsSection t key) (hload : ∃ a, load (sectionTable t key) = .ok a) :
    ∃ a, sectionOf t key label load = .ok (.ok a) := by
  obtain ⟨a,ha⟩ := hload
  refine ⟨a,?_⟩
  rw [sectionTable] at ha
  rw [sectionOf]
  cases hlookup : t.lookup key with
  | none =>
    rw [hlookup] at ha
    dsimp only at ha ⊢
    rw [ha]
    rfl
  | some v =>
    obtain ⟨entries,rfl⟩ := hsection v hlookup
    rw [hlookup] at ha
    dsimp only at ha ⊢
    rw [ha]

theorem ofTable_ok (current : Path) {env : Environment} {t : Table} (h : ValidSource t)
    (hdiagram : ValidVariables env "diagram") (hscan : ValidVariables env "scan") :
    ∃ s, ofTable current env t = .ok s := by
  obtain ⟨own,hown,hownFits⟩ := hdiagram
  obtain ⟨other,hother,hotherFits⟩ := hscan
  obtain ⟨p,hp⟩ := setting_ok current (h.leaves .projectRoot (by decide) rfl)
  obtain ⟨w,hw⟩ := setting_ok (1 : Int) (h.leaves .workers (by decide) rfl)
  obtain ⟨d,hd⟩ := sectionOf_ok "DiagramSettings" (h.sections "diagram" (by decide))
    (Section.load_ok (fun _ ht => DiagramOptions.check_ok ht) hown hownFits (h.entries "diagram" (by decide)))
  obtain ⟨o,ho⟩ := sectionOf_ok "ScanSettings" (h.sections "scan" (by decide))
    (Section.load_ok (fun _ ht => ScanOptions.check_ok ht) hother hotherFits (h.entries "scan" (by decide)))
  refine ⟨⟨p,w,d,o⟩,?_⟩
  rw [ofTable]
  refine bind_eq_ok.mpr ⟨.ok d,hd,bind_eq_ok.mpr ⟨.ok o,ho,mapError_eq_ok.mpr ?_⟩⟩
  simp only [Leaf.name,Leaf.check] at hp hw
  rw [unknownNames_eq_nil h.known,hp,hw]
  rfl

structure Valid (fs : FileSystem) (env : Environment) (given : Table) : Prop where
  given : ValidSource (Section.knownFirst names given)
  environment : ∃ t, fromEnvironment env = .ok t ∧ ValidSource t
  file : ∃ t, fromFile fs = .ok t ∧ ValidSource t
  diagramVariables : ValidVariables env "diagram"
  scanVariables : ValidVariables env "scan"

theorem Valid.load_ok {fs : FileSystem} {env : Environment} {given : Table} (hgiven : given.Keyed)
    (h : Valid fs env given) : ∃ s, load fs env given = .ok s := by
  obtain ⟨environment,henvironment,henvironmentValid⟩ := h.environment
  obtain ⟨file,hfile,hfileValid⟩ := h.file
  have hinit : (Section.knownFirst names given).Keyed :=
    Section.keyed_knownFirst (by decide) (by decide) hgiven
  have hvalid := hfileValid.over ((keyed_fromEnvironment henvironment).over hinit)
    (henvironmentValid.over hinit h.given)
  obtain ⟨s,hs⟩ := ofTable_ok (FileSystem.pathOf fs.current) hvalid h.diagramVariables h.scanVariables
  refine ⟨s,bind_eq_ok.mpr ⟨file,hfile,bind_eq_ok.mpr ⟨environment,?_,?_⟩⟩⟩
  · exact mapError_eq_ok.mpr henvironment
  · exact mapError_eq_ok.mpr hs

end Settings

end ClassDiagram
