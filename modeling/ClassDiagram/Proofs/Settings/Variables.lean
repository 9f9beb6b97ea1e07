import ClassDiagram.Proofs.Settings.Leaves

/-!
The environment variables that settings depend on. Variables whose names start as the program's own do are
read for all settings. The two sections also read variables that have just the names of their settings, so
these eight names, in whatever capitals, are the only other ones through which an environment has a say.
-/

namespace ClassDiagram

namespace Environment

variable {p : String → Bool} {name text : String} {env : Environment}

def keeping (p : String → Bool) (env : Environment) : Environment := env.filter fun e => p e.1

theorem keeping_cons_of_pos (h : p name = true) :
    keeping p ((name,text) :: env) = (name,text) :: env.keeping p :=
  List.filter_cons_of_pos (p := fun e : String × String => p e.1) h

theorem keeping_cons_of_neg (h : ¬ p name = true) :
    keeping p ((name,text) :: env) = env.keeping p :=
  List.filter_cons_of_neg (p := fun e : String × String => p e.1) h

theorem lookup_keeping (h : p name = true) (env : Environment) :
    (env.keeping p).lookup name = env.lookup name := by
  induction env with
  | nil => rfl
  | cons e env ih =>
    obtain ⟨n,text⟩ := e
    by_cases hn : name = n
    · subst hn
      rw [keeping_cons_of_pos h,List.lookup_cons_self,List.lookup_cons_self]
    · have hne : (name == n) = false := by simpa using hn
      by_cases hp : p n = true
      · rw [keeping_cons_of_pos hp,List.lookup_cons,List.lookup_cons,hne]
        exact ih
      · rw [keeping_cons_of_neg hp,List.lookup_cons,hne]
        exact ih

theorem keeping_set (env : Environment) (name value : String) :
    (env.set name value).keeping p =
      if p name = true then (env.keeping p).set name value else env.keeping p := by
  induction env with
  | nil => by_cases hp : p name = true <;> simp [set,keeping,hp]
  | cons e env ih =>
    obtain ⟨n,old⟩ := e
    by_cases hn : n = name
    · subst hn
      rw [set,if_pos rfl]
      by_cases hp : p n = true
      · rw [keeping_cons_of_pos hp,keeping_cons_of_pos hp,if_pos hp,set,if_pos rfl]
      · rw [keeping_cons_of_neg hp,keeping_cons_of_neg hp,if_neg hp]
    · rw [set,if_neg hn]
      by_cases hp : p n = true
      · rw [keeping_cons_of_pos hp,keeping_cons_of_pos hp,ih]
        split
        · rw [set,if_neg hn]
        · rfl
      · rw [keeping_cons_of_neg hp,keeping_cons_of_neg hp,ih]

theorem keeping_ofVariables (p : String → Bool) (vars : List (String × String)) :
    (ofVariables vars).keeping p = ofVariables (vars.filter fun v => p (Text.lower v.1)) := by
  have hfold : ∀ (vars : List (String × String)) (env : Environment),
      keeping p (vars.foldl (fun env v => set env (Text.lower v.1) v.2) env) =
        (vars.filter fun v => p (Text.lower v.1)).foldl (fun env v => set env (Text.lower v.1) v.2)
          (env.keeping p) := by
    intro vars
    induction vars with
    | nil =>
      intro env
      rfl
    | cons v vars ih =>
      intro env
      rw [List.foldl_cons,ih,keeping_set]
      by_cases hp : p (Text.lower v.1) = true
      · rw [if_pos hp,List.filter_cons,if_pos hp,List.foldl_cons]
      · rw [if_neg hp,List.filter_cons,if_neg hp]
  exact hfold vars []

-- The order counts: of two variables that differ in capitals only, the later one is read.
def AgreeOn (p : String → Bool) (vars vars' : List (String × String)) : Prop :=
  vars.filter (fun v => p (Text.lower v.1)) = vars'.filter fun v => p (Text.lower v.1)

instance (p : String → Bool) (vars vars' : List (String × String)) : Decidable (AgreeOn p vars vars') :=
  inferInstanceAs (Decidable (_ = _))

theorem keeping_eq_of_agreeOn {vars vars' : List (String × String)} (h : AgreeOn p vars vars') :
    (ofVariables vars).keeping p = (ofVariables vars').keeping p := by
  rw [keeping_ofVariables,keeping_ofVariables,h]

end Environment

section Reading

variable {p : String → Bool}

theorem singleVariables_keeping {start : List Char}
    (h : ∀ name : String, start.isPrefixOf name.toList = true → p name = true)
    (settings : List SettingName) (env : Environment) (t : Table) :
    singleVariables start settings (env.keeping p) t = singleVariables start settings env t := by
  induction env generalizing t with
  | nil => rfl
  | cons e env ih =>
    obtain ⟨name,text⟩ := e
    by_cases hs : start.isPrefixOf name.toList = true
    · rw [Environment.keeping_cons_of_pos (h name hs),singleVariables,singleVariables,if_pos hs,
        if_pos hs]
      simp only [ih]
    · have hrest : singleVariables start settings ((name,text) :: env) t =
          singleVariables start settings env t := by
        rw [singleVariables,if_neg hs]
      by_cases hp : p name = true
      · rw [Environment.keeping_cons_of_pos hp,singleVariables,if_neg hs,ih,hrest]
      · rw [Environment.keeping_cons_of_neg hp,ih,hrest]

theorem sectionVariables_keeping {variable_ : String} (hv : p variable_ = true)
    (hs : ∀ name : String, (variable_ ++ "__").toList.isPrefixOf name.toList = true → p name = true)
    (env : Environment) (settings : List SettingName) :
    sectionVariables (env.keeping p) variable_ settings = sectionVariables env variable_ settings := by
  simp only [sectionVariables,Environment.lookup_keeping hv,singleVariables_keeping hs]

theorem ownVariables_keeping (env : Environment) {settings : List SettingName}
    (h : ∀ s ∈ settings, p s.name = true) :
    ownVariables (env.keeping p) settings = ownVariables env settings := by
  induction settings with
  | nil => rfl
  | cons s rest ih =>
    have hrest := ih fun r hr => h r (List.mem_cons_of_mem _ hr)
    rw [ownVariables,ownVariables,Environment.lookup_keeping (h s (by simp)),hrest]

end Reading

namespace Settings

def isProgramVariable (name : String) : Bool := variableStart.toList.isPrefixOf name.toList

def isSectionVariable (name : String) : Bool :=
  decide (name ∈ (DiagramOptions.settingNames ++ ScanOptions.settingNames).map SettingName.name)

theorem isProgramVariable_append (name : String) : isProgramVariable (variableStart ++ name) = true := by
  rw [isProgramVariable,List.isPrefixOf_iff_prefix,String.toList_append]
  exact List.prefix_append _ _

theorem isProgramVariable_of_start {variable_ name : String}
    (h : (variableStart ++ variable_ ++ "__").toList.isPrefixOf name.toList = true) :
    isProgramVariable name = true := by
  rw [List.isPrefixOf_iff_prefix,String.toList_append,String.toList_append,List.append_assoc] at h
  rw [isProgramVariable,List.isPrefixOf_iff_prefix]
  exact (List.prefix_append _ _).trans h

theorem fromEnvironment_keeping {p : String → Bool}
    (hp : ∀ name, isProgramVariable name = true → p name = true) (env : Environment) :
    fromEnvironment (env.keeping p) = fromEnvironment env := by
  have hplain : ∀ name, plainVariable (env.keeping p) name = plainVariable env name := by
    intro name
    rw [plainVariable,plainVariable,
      Environment.lookup_keeping (hp _ (isProgramVariable_append name))]
  have hsection : ∀ name settings,
      sectionVariable (env.keeping p) name settings = sectionVariable env name settings := by
    intro name settings
    rw [sectionVariable,sectionVariable,sectionVariables_keeping
      (hp _ (isProgramVariable_append name)) fun n hn => hp n (isProgramVariable_of_start hn)]
  simp only [fromEnvironment,hplain,hsection]

theorem ofTable_keeping {p : String → Bool} (hp : ∀ name, isSectionVariable name = true → p name = true)
    (current : Path) (env : Environment) (t : Table) :
    ofTable current (env.keeping p) t = ofTable current env t := by
  have hnames : ∀ s ∈ DiagramOptions.settingNames ++ ScanOptions.settingNames, p s.name = true := by
    intro s hs
    exact hp _ (decide_eq_true (List.mem_map.mpr ⟨s,hs,rfl⟩))
  have hdiagram : DiagramOptions.load (env.keeping p) = DiagramOptions.load env := by
    funext given
    rw [DiagramOptions.load,Section.load,Section.load,ownVariables_keeping env fun s hs =>
      hnames s (List.mem_append_left _ hs)]
  have hscan : ScanOptions.load (env.keeping p) = ScanOptions.load env := by
    funext given
    rw [ScanOptions.load,Section.load,Section.load,ownVariables_keeping env fun s hs =>
      hnames s (List.mem_append_right _ hs)]
  rw [ofTable,ofTable,hdiagram,hscan]

def merged (fs : FileSystem) (env : Environment) (given : Table) : Except SettingsError Table := do
  let file ← fromFile fs
  let environment ← (fromEnvironment env).mapError .inSection
  pure (Table.over file (Table.over environment (Section.knownFirst names given)))

theorem load_eq_merged (fs : FileSystem) (env : Environment) (given : Table) :
    load fs env given = (do
      let t ← merged fs env given
      (ofTable (FileSystem.pathOf fs.current) env t).mapError .inSection) := by
  simp only [load,merged,bind_assoc,pure_bind]

theorem merged_congr {env env' : Environment}
    (h : env.keeping isProgramVariable = env'.keeping isProgramVariable) (fs : FileSystem)
    (given : Table) : merged fs env given = merged fs env' given := by
  have hread : fromEnvironment env = fromEnvironment env' := by
    rw [← fromEnvironment_keeping (fun _ hn => hn) env,h,fromEnvironment_keeping fun _ hn => hn]
  rw [merged,merged,hread]

def sectionTable (t : Table) (name : String) : Table :=
  match t.lookup name with
  | some (.table given) => given
  | _ => []

theorem load_of_sectionOf {α : Type} {t : Table} {name label : String}
    {load : Table → Except SectionError α} {a : α} (h : sectionOf t name label load = .ok (.ok a)) :
    load (sectionTable t name) = .ok a := by
  rw [sectionOf] at h
  rw [sectionTable]
  split at h
  · rename_i hnone
    obtain ⟨b,hb,hab⟩ := map_eq_ok.mp h
    cases hab
    rw [hnone]
    exact hb
  · rename_i inner hinner
    rw [hinner]
    split at h
    · rename_i b hb
      cases h
      exact hb
    · cases h
    · cases h
  · cases h

theorem ofTable_parts {current : Path} {env : Environment} {t : Table} {s : Settings}
    (h : ofTable current env t = .ok s) :
    Check.setting t "project_root" current Check.path = .ok s.projectRoot ∧
      Check.setting t "workers" 1 Check.int = .ok s.workers ∧
      sectionOf t "diagram" "DiagramSettings" (DiagramOptions.load env) = .ok (.ok s.diagram) ∧
      sectionOf t "scan" "ScanSettings" (ScanOptions.load env) = .ok (.ok s.scan) := by
  simp only [ofTable,bind_eq_ok,mapError_eq_ok] at h
  obtain ⟨diagram,hdiagram,scan,hscan,h⟩ := h
  obtain ⟨⟨root,workers,d,o⟩,hall,rfl⟩ := map_eq_ok.mp (Checked.eq_ok_of_withFaults h)
  obtain ⟨hroot,hall⟩ := Checked.both_eq_ok hall
  obtain ⟨hworkers,hall⟩ := Checked.both_eq_ok hall
  obtain ⟨rfl,rfl⟩ := Checked.both_eq_ok hall
  exact ⟨hroot,hworkers,hdiagram,hscan⟩

theorem ofTable_eq_ok {current : Path} {env : Environment} {t : Table} {s : Settings}
    (h : ofTable current env t = .ok s) :
    Check.setting t "project_root" current Check.path = .ok s.projectRoot ∧
      Check.setting t "workers" 1 Check.int = .ok s.workers ∧
      DiagramOptions.load env (sectionTable t "diagram") = .ok s.diagram ∧
      ScanOptions.load env (sectionTable t "scan") = .ok s.scan := by
  obtain ⟨hroot,hworkers,hdiagram,hscan⟩ := ofTable_parts h
  exact ⟨hroot,hworkers,load_of_sectionOf hdiagram,load_of_sectionOf hscan⟩

structure AgreeWhereSettled (t : Table) (env env' : Environment) (s s' : Settings) : Prop where
  projectRoot : s.projectRoot = s'.projectRoot
  workers : s.workers = s'.workers
  diagram : DiagramOptions.AgreeWhereSettled (sectionTable t "diagram") env env' s.diagram s'.diagram
  scan : ScanOptions.AgreeWhereSettled (sectionTable t "scan") env env' s.scan s'.scan

theorem ofTable_agree {current : Path} {env env' : Environment} {t : Table} {s s' : Settings}
    (h : ofTable current env t = .ok s) (h' : ofTable current env' t = .ok s') :
    AgreeWhereSettled t env env' s s' := by
  obtain ⟨hroot,hworkers,hdiagram,hscan⟩ := ofTable_eq_ok h
  obtain ⟨hroot',hworkers',hdiagram',hscan'⟩ := ofTable_eq_ok h'
  exact ⟨Except.ok.inj (hroot.symm.trans hroot'),Except.ok.inj (hworkers.symm.trans hworkers'),
    DiagramOptions.load_agree hdiagram hdiagram',ScanOptions.load_agree hscan hscan'⟩

theorem fromFile_empty : fromFile {} = .ok [] := by
  have hfile : FileSystem.isFile {} ⟨"/",["class-atlas.toml"]⟩ = false := by
    rw [FileSystem.isFile,FileSystem.locate,FileSystem.destination,FileSystem.follow.eq_def]
    rfl
  have hplaces : (upwards []).map (fun place =>
      (FileSystem.pathOf place).join (Path.ofString configFileName)) =
        [⟨"/",["class-atlas.toml"]⟩] := by decide
  have hnone : configFile? {} = none := by
    rw [configFile?,hplaces,List.find?_cons,hfile,List.find?_nil]
  rw [fromFile,hnone]

theorem load_empty (env : Environment) (given : Table) :
    load {} env given = (do
      let environment ← fromEnvironment env
      let t := Table.over [] (Table.over environment (Section.knownFirst names given))
      ofTable (FileSystem.pathOf []) env t).mapError .inSection := by
  rw [load,fromFile_empty]
  cases fromEnvironment env <;> rfl

open Environment

-- Whether there are settings at all may depend on the eight names, so the second part is about two runs
-- that both give settings.
theorem other_variables_reach_only_sections (fs : FileSystem) (given : Table)
    (vars vars' : List (String × String)) (h : AgreeOn isProgramVariable vars vars') :
    (AgreeOn isSectionVariable vars vars' →
      load fs (ofVariables vars) given = load fs (ofVariables vars') given) ∧
    ∀ s s', load fs (ofVariables vars) given = .ok s → load fs (ofVariables vars') given = .ok s' →
      ∃ t, merged fs (ofVariables vars) given = .ok t ∧
        AgreeWhereSettled t (ofVariables vars) (ofVariables vars') s s' := by
  have hmerged := merged_congr (keeping_eq_of_agreeOn h) fs given
  constructor
  · intro hsections
    have htable : ∀ t, ofTable (FileSystem.pathOf fs.current) (ofVariables vars) t =
        ofTable (FileSystem.pathOf fs.current) (ofVariables vars') t := by
      intro t
      rw [← ofTable_keeping (fun _ hn => hn) _ (ofVariables vars),keeping_eq_of_agreeOn hsections,
        ofTable_keeping fun _ hn => hn]
    rw [load_eq_merged,load_eq_merged,hmerged]
    simp only [htable]
  · intro s s' hs hs'
    rw [load_eq_merged,bind_eq_ok] at hs hs'
    obtain ⟨t,ht,hs⟩ := hs
    obtain ⟨t',ht',hs'⟩ := hs'
    rw [← hmerged,ht] at ht'
    cases ht'
    exact ⟨t,ht,ofTable_agree (mapError_eq_ok.mp hs) (mapError_eq_ok.mp hs')⟩

theorem other_variables_reach_only_sections_constructors :
    let vars := [("CLASS_ATLAS_WORKERS","3"),("HOME","/root"),("SHOW_CONSTRUCTORS","false")]
    let vars' := [("PATH","/bin"),("CLASS_ATLAS_WORKERS","3"),("show_constructors","maybe")]
    let given : Table := [("diagram",.table [("show_constructors",.bool true)])]
    AgreeOn isProgramVariable vars vars' ∧ ¬ AgreeOn isSectionVariable vars vars' ∧
    ∃ s s', load {} (ofVariables vars) given = .ok s ∧ load {} (ofVariables vars') given = .ok s' ∧
      s.workers = s'.workers ∧ s.diagram.showConstructors = s'.diagram.showConstructors := by
  intro vars vars' given
  have hload : load {} (ofVariables vars) given =
      .ok { projectRoot := FileSystem.pathOf [],workers := 3 } := by
    rw [load_empty]
    rfl
  have hload' : load {} (ofVariables vars') given =
      .ok { projectRoot := FileSystem.pathOf [],workers := 3 } := by
    rw [load_empty]
    rfl
  have hagree : AgreeOn isProgramVariable vars vars' := by decide
  obtain ⟨t,ht,hsettled⟩ :=
    (other_variables_reach_only_sections {} given vars vars' hagree).2 _ _ hload hload'
  have hgiven : (Section.given? (sectionTable t "diagram") "show_constructors").isSome := by
    rw [merged,fromFile_empty] at ht
    cases ht
    rfl
  exact ⟨hagree,by decide,_,_,hload,hload',hsettled.workers,hsettled.diagram.showConstructors (.inl hgiven)⟩

theorem bare_variable_hides_packages :
    AgreeOn isProgramVariable [] [("SHOW_PACKAGE","false")] ∧
    load {} (ofVariables []) [] = .ok { projectRoot := FileSystem.pathOf [] } ∧
    load {} (ofVariables [("SHOW_PACKAGE","false")]) [] =
      .ok { projectRoot := FileSystem.pathOf [],diagram := { showPackage := false } } := by
  refine ⟨by decide,?_,?_⟩
  · rw [load_empty]
    rfl
  · rw [load_empty]
    rfl

end Settings

end ClassDiagram
