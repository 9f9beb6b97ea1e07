import ClassDiagram.Language

/-!
A registry told by its registrations. The two tables of a registry are written with different keys, but
both follow from the list of the languages registered so far: a name stands for the last language of that
name, and an extension for the name of the last language that takes it. So a name that holds an extension is
never missing among the languages. Java stands in that list where it was loaded: first if nothing was
registered before, and else behind the languages registered earlier, which then lose their extensions to it.
-/

namespace ClassDiagram

namespace Language

def lastNamed (ls : List Language) (name : String) : Option Language :=
  ls.reverse.find? fun l => l.name = name

def lastTaking (ls : List Language) (extension : String) : Option Language :=
  ls.reverse.find? fun l => extension ∈ l.extensions

theorem lastNamed_append (ls : List Language) (l : Language) (name : String) :
    lastNamed (ls ++ [l]) name = if l.name = name then some l else lastNamed ls name := by
  by_cases h : l.name = name <;> simp [lastNamed,h]

theorem lastTaking_append (ls : List Language) (l : Language) (extension : String) :
    lastTaking (ls ++ [l]) extension =
      if extension ∈ l.extensions then some l else lastTaking ls extension := by
  by_cases h : extension ∈ l.extensions <;> simp [lastTaking,h]

theorem lastTaking_eq_none {ls : List Language} {extension : String} :
    lastTaking ls extension = none ↔ ∀ l ∈ ls, extension ∉ l.extensions := by
  simp [lastTaking]

theorem exists_lastTaking {ls : List Language} {extension : String}
    (h : ∃ l ∈ ls, extension ∈ l.extensions) : ∃ l, lastTaking ls extension = some l := by
  rw [← Option.isSome_iff_exists,lastTaking,List.find?_isSome]
  obtain ⟨l,hl,he⟩ := h
  exact ⟨l,List.mem_reverse.mpr hl,by simpa using he⟩

theorem exists_lastNamed {ls : List Language} {l : Language} (h : l ∈ ls) :
    ∃ found, lastNamed ls l.name = some found := by
  rw [← Option.isSome_iff_exists,lastNamed,List.find?_isSome]
  exact ⟨l,List.mem_reverse.mpr h,by simp⟩

theorem mem_of_lastTaking {ls : List Language} {l : Language} {extension : String}
    (h : lastTaking ls extension = some l) : l ∈ ls :=
  List.mem_reverse.mp (List.mem_of_find?_eq_some h)

end Language

namespace Plugin

def language? (p : Plugin) : Option Language :=
  match p.action with
  | .registers l => some l
  | .failsToLoad | .failsWhenCalled => none

def fails (p : Plugin) : Bool := p.language?.isNone

def warning (p : Plugin) : Event := .pluginFailed p.name

def inGroup (available : List Plugin) : List Plugin :=
  available.filter fun p => p.group = languageGroup

end Plugin

namespace RegistryStep

def language? : RegistryStep → Option Language
  | register l => some l
  | loadJava | discover _ | find _ _ | findForFile _ _ => none

def available? : RegistryStep → Option (List Plugin)
  | register _ | loadJava => none
  | discover available | find _ available | findForFile _ available => some available

def looks (step : RegistryStep) : Bool := step.available?.isSome

def loads (step : RegistryStep) : Bool := step.language?.isNone

def plugins (stage : Stage) (step : RegistryStep) : List Plugin :=
  match stage with
  | .fresh | .javaLoaded => Plugin.inGroup (step.available?.getD [])
  | .discovered => []

def builtIn : Stage → List Language
  | .fresh => [Language.java]
  | .javaLoaded | .discovered => []

def registrations (stage : Stage) : RegistryStep → List Language
  | register l => [l]
  | step => builtIn stage ++ (step.plugins stage).filterMap Plugin.language?

def stageAfter (stage : Stage) : RegistryStep → Stage
  | register _ => stage
  | loadJava => if stage = .fresh then .javaLoaded else stage
  | discover _ | find _ _ | findForFile _ _ => .discovered

def allRegistrations : Stage → List RegistryStep → List Language
  | _, [] => []
  | stage, step :: steps =>
      step.registrations stage ++ allRegistrations (step.stageAfter stage) steps

def allPlugins : Stage → List RegistryStep → List Plugin
  | _, [] => []
  | stage, step :: steps => step.plugins stage ++ allPlugins (step.stageAfter stage) steps

variable {stage : Stage} {step : RegistryStep} {steps : List RegistryStep}

-- The three things a step can be, with what each does to the stage and registers.
theorem register_or_loads (step : RegistryStep) :
    (∃ l, step = register l) ∨ step = loadJava ∨ ∃ available, step.available? = some available := by
  cases step with
  | register l => exact .inl ⟨l,rfl⟩
  | loadJava => exact .inr (.inl rfl)
  | discover available => exact .inr (.inr ⟨available,rfl⟩)
  | find name available => exact .inr (.inr ⟨available,rfl⟩)
  | findForFile path available => exact .inr (.inr ⟨available,rfl⟩)

theorem registrations_of_loads (hs : step.loads = true) (stage : Stage) :
    step.registrations stage = builtIn stage ++ (step.plugins stage).filterMap Plugin.language? := by
  cases step with
  | register l => simp [loads,language?] at hs
  | loadJava | discover available | find name available | findForFile path available => rfl

theorem register_of_not_loads (hs : step.loads = false) : ∃ l, step = register l := by
  cases step with
  | register l => exact ⟨l,rfl⟩
  | loadJava | discover available | find name available | findForFile path available =>
    simp [loads,language?] at hs

theorem stageAfter_of_looks (hs : step.looks = true) (stage : Stage) :
    step.stageAfter stage = .discovered := by
  cases step with
  | register l | loadJava => simp [looks,available?] at hs
  | discover available | find name available | findForFile path available => rfl

theorem stageAfter_eq_discovered :
    step.stageAfter stage = .discovered ↔ stage = .discovered ∨ step.looks = true := by
  cases step <;> cases stage <;> simp [stageAfter,looks,available?]

theorem foldl_stageAfter_eq_discovered :
    steps.foldl stageAfter stage = .discovered ↔ stage = .discovered ∨ steps.any looks = true := by
  induction steps generalizing stage with
  | nil => simp
  | cons step steps ih => rw [List.foldl_cons,ih,stageAfter_eq_discovered]; simp [or_assoc]

theorem allRegistrations_append (stage : Stage) (steps later : List RegistryStep) :
    allRegistrations stage (steps ++ later) =
      allRegistrations stage steps ++ allRegistrations (steps.foldl stageAfter stage) later := by
  induction steps generalizing stage with
  | nil => rfl
  | cons step steps ih => simp [allRegistrations,ih]

theorem allRegistrations_of_not_loads (hs : steps.any loads = false) (stage : Stage) :
    allRegistrations stage steps = steps.filterMap language? ∧
      steps.foldl stageAfter stage = stage := by
  induction steps with
  | nil => exact ⟨rfl,rfl⟩
  | cons step steps ih =>
    obtain ⟨hstep,hrest⟩ := Bool.or_eq_false_iff.mp hs
    obtain ⟨l,rfl⟩ := register_of_not_loads hstep
    obtain ⟨hlanguages,hstage⟩ := ih hrest
    exact ⟨congrArg (l :: ·) hlanguages,hstage⟩

theorem allPlugins_discovered (steps : List RegistryStep) : allPlugins .discovered steps = [] := by
  induction steps with
  | nil => rfl
  | cons step steps ih =>
    have hstage : step.stageAfter .discovered = .discovered := stageAfter_eq_discovered.mpr (.inl rfl)
    rw [allPlugins,hstage,ih]
    rfl

theorem allPlugins_eq_first (hstage : stage ≠ .discovered) (steps : List RegistryStep) :
    allPlugins stage steps = Plugin.inGroup ((steps.findSome? available?).getD []) := by
  induction steps generalizing stage with
  | nil => rfl
  | cons step steps ih =>
    have hplugins : step.plugins stage = Plugin.inGroup (step.available?.getD []) := by
      cases stage <;> simp_all [plugins]
    rw [allPlugins,hplugins,List.findSome?_cons]
    cases ha : step.available? with
    | none =>
      have hnext : step.stageAfter stage ≠ .discovered := by
        simp [Ne,stageAfter_eq_discovered,hstage,looks,ha]
      exact ih hnext
    | some available =>
      have hnext : step.stageAfter stage = .discovered := by
        simp [stageAfter_eq_discovered,looks,ha]
      rw [hnext,allPlugins_discovered]
      simp

end RegistryStep

namespace Registry

open ClassDiagram.Language RegistryStep

structure Records (r : Registry) (ls : List Language) : Prop where
  languages : ∀ name, r.languages.lookup name = lastNamed ls name
  holders : ∀ extension, r.holders.lookup extension = (lastTaking ls extension).map Language.name

variable {r : Registry} {ls : List Language}

theorem lookup_holders (name extension : String) (extensions : List String)
    (holders : List (String × String)) :
    (extensions.foldl (fun holders e => (e,name) :: holders) holders).lookup extension =
      if extension ∈ extensions then some name else holders.lookup extension := by
  induction extensions generalizing holders with
  | nil => simp
  | cons e extensions ih =>
    rw [List.foldl_cons,ih,List.lookup_cons]
    by_cases he : extension = e
    · simp [he]
    · have hb : (extension == e) = false := by simpa using he
      simp [he,hb]

theorem Records.register (h : r.Records ls) (l : Language) : (r.register l).Records (ls ++ [l]) := by
  refine ⟨?_,?_⟩
  · intro name
    rw [lastNamed_append,Registry.register,List.lookup_cons]
    by_cases hn : l.name = name
    · simp [hn]
    · have hb : (name == l.name) = false := by simpa using Ne.symm hn
      simp [hn,hb,h.languages]
  · intro extension
    rw [lastTaking_append,Registry.register,lookup_holders]
    by_cases he : extension ∈ l.extensions <;> simp [he,h.holders]

theorem initial_records : initial.Records [] := ⟨fun _ => rfl,fun _ => rfl⟩

theorem Records.at_stage (h : r.Records ls) (stage : Stage) : { r with stage }.Records ls :=
  ⟨h.languages,h.holders⟩

theorem Records.loadJava (h : r.Records ls) : r.loadJava.Records (ls ++ builtIn r.stage) := by
  rw [Registry.loadJava]
  cases r.stage with
  | fresh => exact (h.register Language.java).at_stage .javaLoaded
  | javaLoaded | discovered => simpa [builtIn] using h

theorem Records.get?_eq (h : r.Records ls) (name : String) : r.get? name = lastNamed ls name :=
  h.languages name

theorem Records.forFile?_eq (h : r.Records ls) (path : String) :
    r.forFile? path =
      (lastTaking ls (Text.lower (Path.ofString path).suffix)).bind fun l => r.get? l.name := by
  rw [forFile?,h.holders]
  cases lastTaking ls (Text.lower (Path.ofString path).suffix) <;> rfl

theorem Records.forFile?_found (h : r.Records ls) {path : String}
    (hsome : ∃ l ∈ ls, Text.lower (Path.ofString path).suffix ∈ l.extensions) :
    ∃ l found, lastTaking ls (Text.lower (Path.ofString path).suffix) = some l ∧
      r.get? l.name = some found ∧ r.forFile? path = some found := by
  obtain ⟨l,hl⟩ := exists_lastTaking hsome
  obtain ⟨found,hfound⟩ := exists_lastNamed (mem_of_lastTaking hl)
  have hname : r.get? l.name = some found := (h.get?_eq l.name).trans hfound
  exact ⟨l,found,hl,hname,by rw [h.forFile?_eq,hl,Option.bind_some,hname]⟩

theorem load_registers {p : Plugin} {l : Language} (hp : p.language? = some l) (r : Registry) :
    r.load p = (r.register l,[]) := by
  unfold Plugin.language? at hp
  unfold load
  split at hp
  · obtain rfl := Option.some.inj hp
    simp [*]
  · simp at hp
  · simp at hp

theorem load_fails {p : Plugin} (hp : p.language? = none) (r : Registry) :
    r.load p = (r,[p.warning]) := by
  unfold Plugin.language? at hp
  unfold load
  split at hp
  · simp at hp
  · simp [*,Plugin.warning]
  · simp [*,Plugin.warning]

theorem loadAll_stage (r : Registry) (ps : List Plugin) : (r.loadAll ps).1.stage = r.stage := by
  induction ps generalizing r with
  | nil => rfl
  | cons p ps ih =>
    rw [loadAll]
    cases hp : p.language? with
    | some l => simp [load_registers hp,ih,Registry.register]
    | none => simp [load_fails hp,ih]

theorem loadAll_log (r : Registry) (ps : List Plugin) :
    (r.loadAll ps).2 = (ps.filter Plugin.fails).map Plugin.warning := by
  induction ps generalizing r with
  | nil => rfl
  | cons p ps ih =>
    rw [loadAll]
    cases hp : p.language? with
    | some l => simp [load_registers hp,ih,Plugin.fails,hp]
    | none => simp [load_fails hp,ih,Plugin.fails,hp]

theorem Records.loadAll (h : r.Records ls) (ps : List Plugin) :
    (r.loadAll ps).1.Records (ls ++ ps.filterMap Plugin.language?) := by
  induction ps generalizing r ls with
  | nil => simpa [Registry.loadAll] using h
  | cons p ps ih =>
    rw [Registry.loadAll]
    cases hp : p.language? with
    | some l =>
      have hrest := ih (h.register l)
      simpa [load_registers hp,hp] using hrest
    | none =>
      have hrest := ih h
      simpa [load_fails hp,hp] using hrest

theorem loadAll_without_failing (r : Registry) {p : Plugin} (hp : p.fails = true)
    (before after : List Plugin) :
    (r.loadAll (before ++ p :: after)).1 = (r.loadAll (before ++ after)).1 := by
  induction before generalizing r with
  | nil =>
    have hnone : p.language? = none := Option.isNone_iff_eq_none.mp hp
    rw [List.nil_append,List.nil_append,loadAll,load_fails hnone]
  | cons q before ih =>
    rw [List.cons_append,List.cons_append,loadAll,loadAll]
    exact ih _

theorem languages_without_failing {p : Plugin} (hp : p.fails = true) (before after : List Plugin) :
    (Plugin.inGroup (before ++ p :: after)).filterMap Plugin.language? =
      (Plugin.inGroup (before ++ after)).filterMap Plugin.language? := by
  have hnone : p.language? = none := Option.isNone_iff_eq_none.mp hp
  simp only [Plugin.inGroup,List.filter_append,List.filter_cons]
  split <;> simp [hnone]

theorem discover_eq (r : Registry) (available : List Plugin) :
    r.discover available =
      { r.loadJava with stage := .discovered }.loadAll
        (if r.stage = Stage.discovered then [] else Plugin.inGroup available) := by
  rw [discover]
  cases hs : r.stage with
  | fresh | javaLoaded => rfl
  | discovered =>
    have hjava : r.loadJava = r := by rw [loadJava,hs]
    have hsame : { r.loadJava with stage := .discovered } = r := by rw [hjava,← hs]
    rw [hsame]
    rfl

theorem discover_without_failing (r : Registry) {p : Plugin} (hp : p.fails = true)
    (before after : List Plugin) :
    (r.discover (before ++ p :: after)).1 = (r.discover (before ++ after)).1 := by
  rw [discover_eq,discover_eq]
  split
  · rfl
  · simp only [Plugin.inGroup,List.filter_append,List.filter_cons]
    split
    · exact loadAll_without_failing _ hp _ _
    · rfl

-- Every step that looks for plugins changes the registry as `discover` does, whatever it looks for then.
theorem perform_of_available {step : RegistryStep} {available : List Plugin}
    (hs : step.available? = some available) (r : Registry) :
    (r.perform step).registry = (r.discover available).1 ∧
      (r.perform step).log = (r.discover available).2 := by
  cases step with
  | register l | loadJava => simp [available?] at hs
  | discover ps | find name ps | findForFile path ps =>
    obtain rfl := Option.some.inj hs
    exact ⟨rfl,rfl⟩

theorem plugins_of_available {step : RegistryStep} {available : List Plugin}
    (hs : step.available? = some available) (stage : Stage) :
    step.plugins stage = if stage = .discovered then [] else Plugin.inGroup available := by
  cases stage <;> simp [plugins,hs]

theorem registrations_of_available {step : RegistryStep} {available : List Plugin}
    (hs : step.available? = some available) (stage : Stage) :
    step.registrations stage = builtIn stage ++
      (if stage = .discovered then [] else Plugin.inGroup available).filterMap Plugin.language? := by
  have hloads : step.loads = true := by cases step <;> simp_all [loads,language?,available?]
  rw [registrations_of_loads hloads,plugins_of_available hs]

theorem Records.perform (h : r.Records ls) (step : RegistryStep) :
    (r.perform step).registry.Records (ls ++ step.registrations r.stage) := by
  obtain ⟨l,rfl⟩ | rfl | ⟨available,ha⟩ := register_or_loads step
  · exact h.register l
  · have hnone : RegistryStep.loadJava.plugins r.stage = [] := by cases r.stage <;> rfl
    rw [registrations_of_loads rfl,hnone,List.filterMap_nil,List.append_nil]
    exact h.loadJava
  · rw [(perform_of_available ha r).1,discover_eq,registrations_of_available ha,← List.append_assoc]
    exact (h.loadJava.at_stage .discovered).loadAll _

theorem perform_stage (r : Registry) (step : RegistryStep) :
    (r.perform step).registry.stage = step.stageAfter r.stage := by
  obtain ⟨l,rfl⟩ | rfl | ⟨available,ha⟩ := register_or_loads step
  · rfl
  · cases hs : r.stage <;> simp [Registry.perform,Registry.loadJava,stageAfter,hs]
  · rw [(perform_of_available ha r).1,discover_eq,loadAll_stage,stageAfter_of_looks (by simp [looks,ha])]

theorem perform_log (r : Registry) (step : RegistryStep) :
    (r.perform step).log = ((step.plugins r.stage).filter Plugin.fails).map Plugin.warning := by
  obtain ⟨l,rfl⟩ | rfl | ⟨available,ha⟩ := register_or_loads step
  · cases r.stage <;> rfl
  · cases r.stage <;> rfl
  · rw [(perform_of_available ha r).2,discover_eq,loadAll_log,plugins_of_available ha]

theorem Records.performAll (h : r.Records ls) (steps : List RegistryStep) :
    (r.performAll steps).1.Records (ls ++ allRegistrations r.stage steps) := by
  induction steps generalizing r ls with
  | nil => simpa [Registry.performAll,allRegistrations] using h
  | cons step steps ih =>
    have hrest := ih (h.perform step)
    rw [perform_stage] at hrest
    simpa [Registry.performAll,allRegistrations] using hrest

theorem performAll_stage (r : Registry) (steps : List RegistryStep) :
    (r.performAll steps).1.stage = steps.foldl stageAfter r.stage := by
  induction steps generalizing r with
  | nil => rfl
  | cons step steps ih => rw [List.foldl_cons,← perform_stage,← ih]; rfl

theorem performAll_log (r : Registry) (steps : List RegistryStep) :
    (r.performAll steps).2 =
      ((allPlugins r.stage steps).filter Plugin.fails).map Plugin.warning := by
  induction steps generalizing r with
  | nil => rfl
  | cons step steps ih =>
    simp [Registry.performAll,allPlugins,ih,perform_log,perform_stage]

theorem perform_of_discovered {r : Registry} (hr : r.stage = .discovered) {step : RegistryStep}
    (hs : step.looks = true) : (r.perform step).registry = r ∧ (r.perform step).log = [] := by
  obtain ⟨available,ha⟩ := Option.isSome_iff_exists.mp hs
  rw [(perform_of_available ha r).1,(perform_of_available ha r).2,discover,hr]
  exact ⟨rfl,rfl⟩

def registered (steps : List RegistryStep) : List Language := allRegistrations .fresh steps

theorem registered_append (steps : List RegistryStep) (step : RegistryStep) :
    registered (steps ++ [step]) =
      registered steps ++ step.registrations (steps.foldl stageAfter .fresh) := by
  simp [registered,allRegistrations_append,allRegistrations]

theorem registered_of_looked {steps : List RegistryStep} (hsteps : steps.any looks = true)
    {step : RegistryStep} (hstep : step.looks = true) :
    registered (steps ++ [step]) = registered steps := by
  obtain ⟨available,ha⟩ := Option.isSome_iff_exists.mp hstep
  rw [registered_append,registrations_of_available ha,
    foldl_stageAfter_eq_discovered.mpr (.inr hsteps)]
  simp [builtIn]

theorem registered_without_failing (steps : List RegistryStep) {p : Plugin} (hp : p.fails = true)
    {before after : List Plugin} {step other : RegistryStep}
    (hstep : step.available? = some (before ++ p :: after))
    (hother : other.available? = some (before ++ after)) :
    registered (steps ++ [step]) = registered (steps ++ [other]) := by
  rw [registered_append,registered_append,registrations_of_available hstep,
    registrations_of_available hother]
  split
  · rfl
  · rw [languages_without_failing hp]

theorem registered_of_first_load {before : List RegistryStep} (hbefore : before.any loads = false)
    {step : RegistryStep} (hstep : step.loads = true) (after : List RegistryStep) :
    ∃ more, registered (before ++ step :: after) =
      before.filterMap RegistryStep.language? ++ Language.java ::
        ((Plugin.inGroup (step.available?.getD [])).filterMap Plugin.language? ++ more) := by
  obtain ⟨hlanguages,hstage⟩ := allRegistrations_of_not_loads hbefore .fresh
  refine ⟨allRegistrations (step.stageAfter .fresh) after,?_⟩
  rw [registered,allRegistrations_append,hlanguages,hstage,allRegistrations,registrations_of_loads hstep]
  simp [builtIn,plugins]

theorem performAll_records (steps : List RegistryStep) :
    (initial.performAll steps).1.Records (registered steps) :=
  initial_records.performAll steps

theorem perform_records (steps : List RegistryStep) (step : RegistryStep) :
    ((initial.performAll steps).1.perform step).registry.Records (registered (steps ++ [step])) := by
  have h := (performAll_records steps).perform step
  have hstage : (initial.performAll steps).1.stage = steps.foldl stageAfter .fresh :=
    performAll_stage initial steps
  rwa [hstage,← registered_append] at h

theorem tables_follow_registrations (steps : List RegistryStep) :
    let r := (initial.performAll steps).1
    (∀ name available,
      (r.perform (.find name available)).language =
        lastNamed (registered (steps ++ [.find name available])) name) ∧
    (∀ path available,
      let ls := registered (steps ++ [.findForFile path available])
      let suffix := Text.lower (Path.ofString path).suffix
      ((∀ l ∈ ls, suffix ∉ l.extensions) →
        (r.perform (.findForFile path available)).language = none) ∧
      ((∃ l ∈ ls, suffix ∈ l.extensions) →
        ∃ l found, lastTaking ls suffix = some l ∧
          (r.perform (.find l.name available)).language = some found ∧
          (r.perform (.findForFile path available)).language = some found)) ∧
    (steps.any looks = true → ∀ step : RegistryStep, step.looks = true →
      registered (steps ++ [step]) = registered steps ∧
        (r.perform step).registry = r ∧ (r.perform step).log = []) ∧
    (∀ p : Plugin, p.fails = true → ∀ (before after : List Plugin) (step other : RegistryStep),
      step.available? = some (before ++ p :: after) → other.available? = some (before ++ after) →
        registered (steps ++ [step]) = registered (steps ++ [other]) ∧
          (r.perform step).registry = (r.perform other).registry) ∧
    (initial.performAll steps).2 =
      ((Plugin.inGroup ((steps.findSome? available?).getD [])).filter Plugin.fails).map
        Plugin.warning ∧
    (steps.any loads = false → registered steps = steps.filterMap RegistryStep.language?) ∧
    (∀ before step after, steps = before ++ step :: after →
      before.any loads = false → step.loads = true →
        ∃ more, registered steps = before.filterMap RegistryStep.language? ++ Language.java ::
          ((Plugin.inGroup (step.available?.getD [])).filterMap Plugin.language? ++ more)) := by
  intro r
  refine ⟨?_,?_,?_,?_,?_,?_,?_⟩
  · intro name available
    exact (perform_records steps (.find name available)).get?_eq name
  · intro path available ls suffix
    have h := perform_records steps (.findForFile path available)
    refine ⟨?_,h.forFile?_found⟩
    intro hnone
    have hfile := h.forFile?_eq path
    rwa [lastTaking_eq_none.mpr hnone,Option.bind_none] at hfile
  · intro hsteps step hstep
    have hstage : r.stage = .discovered :=
      (performAll_stage initial steps).trans (foldl_stageAfter_eq_discovered.mpr (.inr hsteps))
    exact ⟨registered_of_looked hsteps hstep,perform_of_discovered hstage hstep⟩
  · intro p hp before after step other hstep hother
    refine ⟨registered_without_failing steps hp hstep hother,?_⟩
    rw [(perform_of_available hstep r).1,(perform_of_available hother r).1]
    exact discover_without_failing r hp before after
  · rw [performAll_log,← allPlugins_eq_first (by decide : initial.stage ≠ .discovered)]
  · intro hsteps
    exact (allRegistrations_of_not_loads hsteps .fresh).1
  · rintro before step after rfl hbefore hstep
    exact registered_of_first_load hbefore hstep after

def brokenPlugin : Plugin := ⟨"scala",Plugin.languageGroup,.failsWhenCalled⟩

def upgrade : List RegistryStep :=
  [.register ⟨"kotlin",[".kt"]⟩,
    .find "kotlin" [brokenPlugin,⟨"java",Plugin.languageGroup,.registers ⟨"java",[".jav"]⟩⟩]]

theorem tables_follow_registrations_upgrade :
    let r := (initial.performAll upgrade).1
    upgrade.any looks = true ∧ brokenPlugin.fails = true ∧
    (∃ l ∈ registered (upgrade ++ [.findForFile "src/A.JAVA" []]), ".java" ∈ l.extensions) ∧
    (r.perform (.findForFile "src/A.JAVA" [])).language = some ⟨"java",[".jav"]⟩ ∧
    (r.perform (.findForFile "notes.txt" [])).language = none ∧
    (r.perform (.discover [brokenPlugin])).registry = r ∧
    (r.perform (.discover [brokenPlugin])).registry = (r.perform (.find "java" [])).registry ∧
    (initial.performAll upgrade).2 = [.pluginFailed "scala"] ∧
    ∃ more, registered upgrade =
      [⟨"kotlin",[".kt"]⟩,Language.java,⟨"java",[".jav"]⟩] ++ more := by
  intro r
  have hlooked : upgrade.any looks = true := by decide
  have hfails : brokenPlugin.fails = true := by decide
  have hjava : Text.lower (Path.ofString "src/A.JAVA").suffix = ".java" := by decide +kernel
  have htxt : Text.lower (Path.ofString "notes.txt").suffix = ".txt" := by decide +kernel
  have hholder : ∃ l ∈ registered (upgrade ++ [.findForFile "src/A.JAVA" []]), ".java" ∈ l.extensions :=
    ⟨Language.java,by decide,by decide⟩
  obtain ⟨hname,hfile,hagain,hbroken,hlog,-,hplace⟩ := tables_follow_registrations upgrade
  refine ⟨hlooked,hfails,hholder,?_,?_,?_,?_,hlog,?_⟩
  · obtain ⟨l,found,hl,hfound,hanswer⟩ := (hfile "src/A.JAVA" []).2 (by rw [hjava]; exact hholder)
    rw [hjava] at hl
    obtain rfl : Language.java = l := Option.some.inj ((by decide : lastTaking _ _ = _).symm.trans hl)
    rw [hanswer,← hfound,hname]
    decide
  · exact (hfile "notes.txt" []).1 (by rw [htxt]; decide)
  · exact (hagain hlooked (.discover [brokenPlugin]) rfl).2.1
  · exact (hbroken brokenPlugin hfails [] [] (.discover [brokenPlugin]) (.find "java" []) rfl rfl).2
  · exact hplace [.register ⟨"kotlin",[".kt"]⟩] _ [] rfl (by decide) (by decide)

-- If Java came first among the registrations, the file would go to the language registered for it.
theorem early_language_loses_its_extension :
    let kotlin : Language := ⟨"kotlin",[".java"]⟩
    let r := (initial.performAll [.register kotlin]).1
    lastTaking [Language.java,kotlin] (Text.lower (Path.ofString "A.java").suffix) = some kotlin ∧
      (r.perform (.find kotlin.name [])).language = some kotlin ∧
      (r.perform (.findForFile "A.java" [])).language = some Language.java ∧
      Language.java ≠ kotlin ∧
      registered [.register kotlin,.findForFile "A.java" []] = [kotlin,Language.java] := by
  decide +kernel

end Registry

end ClassDiagram
