import ClassDiagram.Proofs.Outcome
import ClassDiagram.Settings.Load

/-!
Where each single setting comes from. The settings of a section are read from one table, in which what is
given lies over the section's own variables. So the value of a setting is the one that is given, and when
none is given it depends on the variable of its own name alone.
-/

namespace ClassDiagram

namespace Table

theorem over_append (lower upper top : Table) :
    Table.over lower (upper ++ top) = Table.over (Table.over lower upper) top := by
  induction upper generalizing lower with
  | nil => rw [List.nil_append,Table.over]
  | cons e upper ih => rw [List.cons_append,Table.over,Table.over,ih]

theorem lookup_over_congr {lower lower' : Table} {key : String}
    (h : lower.lookup key = lower'.lookup key) (upper : Table) :
    (Table.over lower upper).lookup key = (Table.over lower' upper).lookup key := by
  induction upper generalizing lower lower' with
  | nil => rw [Table.over,Table.over,h]
  | cons e upper ih =>
    rw [Table.over,Table.over]
    refine ih ?_
    by_cases hk : key = e.1
    · rw [← hk,lookup_set_self,lookup_set_self,h]
    · rw [lookup_set_of_ne _ _ hk,lookup_set_of_ne _ _ hk,h]

theorem lookup_over_of_absent {key : String} {upper : Table} (h : ∀ e ∈ upper, e.1 ≠ key)
    (lower : Table) : (Table.over lower upper).lookup key = lower.lookup key := by
  induction upper generalizing lower with
  | nil => rw [Table.over]
  | cons e upper ih =>
    have hne : key ≠ e.1 := (h e (by simp)).symm
    rw [Table.over,ih fun f hf => h f (List.mem_cons_of_mem _ hf),lookup_set_of_ne _ _ hne]

end Table

namespace Section

-- Known names are written in small letters, so what is left of a table has none of them.
theorem lookup_over_knownFirst {known : List String} (hnodup : known.Nodup) {name : String}
    (hname : name ∈ known) (hlower : Text.lower name = name) {given : Table} {v : Value}
    (hv : given? given name = some v) (own : Table) :
    (Table.over own (knownFirst known given)).lookup name =
      some ((own.lookup name).elim v (Value.over · v)) := by
  obtain ⟨before,after,rfl⟩ := List.append_of_mem hname
  have hdistinct := List.nodup_append.mp hnodup
  have hbefore : name ∉ before := fun hm => hdistinct.2.2 name hm name (by simp) rfl
  have hafter : name ∉ after := (List.nodup_cons.mp hdistinct.2.1).1
  have habsent : ∀ names : List String, name ∉ names →
      ∀ e ∈ names.filterMap (fun n => (given? given n).map (n,·)), e.1 ≠ name := by
    intro names hn e he heq
    obtain ⟨n,hmem,hsome⟩ := List.mem_filterMap.mp he
    obtain ⟨w,-,rfl⟩ := Option.map_eq_some_iff.mp hsome
    exact hn (heq ▸ hmem)
  have hrest : ∀ e ∈ given.filter (fun e => Text.lower e.1 ∉ before ++ name :: after),
      e.1 ≠ name := by
    intro e he heq
    have hunknown := of_decide_eq_true (List.mem_filter.mp he).2
    exact hunknown (by rw [heq,hlower]; exact hname)
  have hsplit : knownFirst (before ++ name :: after) given =
      before.filterMap (fun n => (given? given n).map (n,·)) ++ (name,v) ::
        (after.filterMap (fun n => (given? given n).map (n,·)) ++
          given.filter (fun e => Text.lower e.1 ∉ before ++ name :: after)) := by
    simp only [knownFirst,List.filterMap_append,List.filterMap_cons,hv,Option.map_some,
      List.append_assoc,List.cons_append]
  rw [hsplit,Table.over_append,Table.over,Table.over_append,
    Table.lookup_over_of_absent hrest,Table.lookup_over_of_absent (habsent after hafter),
    Table.lookup_set_self,Table.lookup_over_of_absent (habsent before hbefore)]
  cases own.lookup name <;> rfl

end Section

namespace Checked

variable {α β : Type}

theorem eq_ok_of_under {step : LocationStep} {c : Checked α} {a : α} (h : c.under step = .ok a) :
    c = .ok a := by
  cases c with
  | ok b => exact h
  | error fs => cases h

theorem both_eq_ok {x : Checked α} {y : Checked β} {p : α × β} (h : x.both y = .ok p) :
    x = .ok p.1 ∧ y = .ok p.2 := by
  cases x with
  | error fs => cases h
  | ok a =>
    cases y with
    | error fs => cases h
    | ok b =>
      cases h
      exact ⟨rfl,rfl⟩

theorem eq_ok_of_withFaults {fs : List Fault} {c : Checked α} {a : α}
    (h : Check.withFaults fs c = .ok a) : c = .ok a := by
  cases c with
  | error gs => cases h
  | ok b =>
    rw [Check.withFaults] at h
    split at h
    · exact h
    · cases h

end Checked

namespace Section

variable {α β : Type} {names : List SettingName} {env env' : Environment} {given : Table} {name : String}

-- Tables are joined and not replaced, so a setting that could be a table would mix two sources.
def RefusesTables (check : Value → Checked β) : Prop := ∀ entries b, check (.table entries) ≠ .ok b

theorem setting_given {check : Value → Checked β} (hrefuses : RefusesTables check)
    {known : List String} (hnodup : known.Nodup) (hname : name ∈ known)
    (hlower : Text.lower name = name) {v : Value} (hv : given? given name = some v)
    {own : Table} {otherwise b : β}
    (h : Check.setting (Table.over own (knownFirst known given)) name otherwise check = .ok b) :
    check v = .ok b := by
  rw [Check.setting,lookup_over_knownFirst hnodup hname hlower hv] at h
  have hchecked := Checked.eq_ok_of_under h
  cases hown : own.lookup name with
  | none => rwa [hown] at hchecked
  | some old =>
    rw [hown] at hchecked
    cases v with
    | table entries =>
      cases old <;> exact absurd hchecked (hrefuses _ _)
    | _ => simpa only [Option.elim_some,Value.over] using hchecked

theorem setting_congr {t t' : Table} (h : t.lookup name = t'.lookup name) (otherwise : β)
    (check : Value → Checked β) :
    Check.setting t name otherwise check = Check.setting t' name otherwise check := by
  rw [Check.setting,Check.setting,h]

def ownVariable (text? : Option String) (s : SettingName) : Except SectionError Table :=
  match text? with
  | none => pure []
  | some text =>
      if s.isJson then match Json.parse text with
        | none => .error (.unreadableVariable s.name)
        | some .null => pure []
        | some v => pure [(s.name,v)]
      else pure [(s.name,.text text)]

theorem ownVariables_cons (env : Environment) (s : SettingName) (rest : List SettingName) :
    ownVariables env (s :: rest) = (do
      let own ← ownVariable (env.lookup s.name) s
      pure (own ++ (← ownVariables env rest))) := by
  rw [ownVariables]
  cases env.lookup s.name with
  | none => rfl
  | some text =>
    dsimp only [ownVariable]
    by_cases hjson : s.isJson = true
    · rw [if_pos hjson,if_pos hjson]
      rcases Json.parse text with _ | v
      · rfl
      · cases v <;> rfl
    · rw [if_neg hjson,if_neg hjson]

theorem lookup_ownVariable_of_ne {text? : Option String} {s : SettingName} {own : Table}
    (h : ownVariable text? s = .ok own) (hne : name ≠ s.name) : own.lookup name = none := by
  have hfalse : (name == s.name) = false := by simpa using hne
  rw [ownVariable.eq_def] at h
  split at h
  · cases h
    rfl
  · split at h
    · split at h
      · cases h
      · cases h
        rfl
      · cases h
        rw [List.lookup_cons,hfalse,List.lookup_nil]
    · cases h
      rw [List.lookup_cons,hfalse,List.lookup_nil]

theorem lookup_ownVariables_congr (h : env.lookup name = env'.lookup name) {own own' : Table}
    (hown : ownVariables env names = .ok own) (hown' : ownVariables env' names = .ok own') :
    own.lookup name = own'.lookup name := by
  induction names generalizing own own' with
  | nil =>
    cases hown
    cases hown'
    rfl
  | cons s rest ih =>
    simp only [ownVariables_cons,bind_eq_ok,pure_eq_ok] at hown hown'
    obtain ⟨first,hfirst,later,hlater,rfl⟩ := hown
    obtain ⟨first',hfirst',later',hlater',rfl⟩ := hown'
    have hrest := ih hlater hlater'
    rw [List.lookup_append,List.lookup_append,hrest]
    by_cases hs : name = s.name
    · rw [← hs] at hfirst hfirst'
      rw [h,hfirst'] at hfirst
      cases hfirst
      rfl
    · rw [lookup_ownVariable_of_ne hfirst hs,lookup_ownVariable_of_ne hfirst' hs]

-- Nothing is left for the variables of a section to decide about one setting.
def Settled (given : Table) (env env' : Environment) (name : String) : Prop :=
  (given? given name).isSome ∨ env.lookup name = env'.lookup name

theorem leaf_given {check : Table → Checked α} {leaf : α → β} {otherwise : β}
    {leafCheck : Value → Checked β}
    (hleaf : ∀ t a, check t = .ok a → Check.setting t name otherwise leafCheck = .ok (leaf a))
    (hrefuses : RefusesTables leafCheck) (hnodup : (names.map SettingName.name).Nodup)
    (hname : name ∈ names.map SettingName.name) (hlower : Text.lower name = name) {a : α} {v : Value}
    (h : load names check env given = .ok a) (hv : given? given name = some v) :
    leafCheck v = .ok (leaf a) := by
  simp only [load,bind_eq_ok,mapError_eq_ok] at h
  obtain ⟨own,_,ha⟩ := h
  exact setting_given hrefuses hnodup hname hlower hv (hleaf _ _ ha)

theorem leaf_eq {check : Table → Checked α} {leaf : α → β} {otherwise : β}
    {leafCheck : Value → Checked β}
    (hleaf : ∀ t a, check t = .ok a → Check.setting t name otherwise leafCheck = .ok (leaf a))
    (hrefuses : RefusesTables leafCheck) (hnodup : (names.map SettingName.name).Nodup)
    (hname : name ∈ names.map SettingName.name) (hlower : Text.lower name = name) {a a' : α}
    (h : load names check env given = .ok a) (h' : load names check env' given = .ok a')
    (hsettled : Settled given env env' name) : leaf a = leaf a' := by
  rcases hsettled with hgiven | hsame
  · obtain ⟨v,hv⟩ := Option.isSome_iff_exists.mp hgiven
    have hv₁ := leaf_given hleaf hrefuses hnodup hname hlower h hv
    have hv₂ := leaf_given hleaf hrefuses hnodup hname hlower h' hv
    exact Except.ok.inj (hv₁.symm.trans hv₂)
  · simp only [load,bind_eq_ok,mapError_eq_ok] at h h'
    obtain ⟨own,hown,ha⟩ := h
    obtain ⟨own',hown',ha'⟩ := h'
    have hread := hleaf _ _ ha
    have hread' := hleaf _ _ ha'
    have hlookup := Table.lookup_over_congr (lookup_ownVariables_congr hsame hown hown')
      (knownFirst (names.map SettingName.name) given)
    rw [setting_congr hlookup,hread'] at hread
    exact (Except.ok.inj hread).symm

end Section

namespace Check

theorem bool_refuses : Section.RefusesTables bool := by
  intro entries b h
  cases h

theorem visibilities_refuses : Section.RefusesTables visibilities := by
  intro entries b h
  cases h

theorem texts_refuses : Section.RefusesTables texts := by
  intro entries b h
  cases h

end Check

namespace DiagramOptions

variable {env env' : Environment} {given : Table} {d d' : DiagramOptions}

theorem check_eq_ok {t : Table} (h : check t = .ok d) :
    Check.setting t "field_visibilities" Vocabulary.members Check.visibilities =
        .ok d.fieldVisibilities ∧
      Check.setting t "method_visibilities" Vocabulary.members Check.visibilities =
        .ok d.methodVisibilities ∧
      Check.setting t "show_package" true Check.bool = .ok d.showPackage ∧
      Check.setting t "show_constructors" true Check.bool = .ok d.showConstructors ∧
      Check.setting t "show_field_relationships" true Check.bool = .ok d.showFieldRelationships ∧
      Check.setting t "show_method_relationships" true Check.bool = .ok d.showMethodRelationships := by
  obtain ⟨⟨f,m,p,c,fl,ml⟩,hall,rfl⟩ := map_eq_ok.mp (Checked.eq_ok_of_withFaults h)
  obtain ⟨hf,hall⟩ := Checked.both_eq_ok hall
  obtain ⟨hm,hall⟩ := Checked.both_eq_ok hall
  obtain ⟨hp,hall⟩ := Checked.both_eq_ok hall
  obtain ⟨hc,hall⟩ := Checked.both_eq_ok hall
  obtain ⟨hfl,hml⟩ := Checked.both_eq_ok hall
  exact ⟨hf,hm,hp,hc,hfl,hml⟩

structure AgreeWhereSettled (given : Table) (env env' : Environment) (d d' : DiagramOptions) :
    Prop where
  fieldVisibilities : Section.Settled given env env' "field_visibilities" →
    d.fieldVisibilities = d'.fieldVisibilities
  methodVisibilities : Section.Settled given env env' "method_visibilities" →
    d.methodVisibilities = d'.methodVisibilities
  showPackage : Section.Settled given env env' "show_package" → d.showPackage = d'.showPackage
  showConstructors : Section.Settled given env env' "show_constructors" →
    d.showConstructors = d'.showConstructors
  showFieldRelationships : Section.Settled given env env' "show_field_relationships" →
    d.showFieldRelationships = d'.showFieldRelationships
  showMethodRelationships : Section.Settled given env env' "show_method_relationships" →
    d.showMethodRelationships = d'.showMethodRelationships

theorem names_nodup : (settingNames.map SettingName.name).Nodup := by decide

theorem load_agree (h : load env given = .ok d) (h' : load env' given = .ok d') :
    AgreeWhereSettled given env env' d d' where
  fieldVisibilities := Section.leaf_eq (fun _ _ hd => (check_eq_ok hd).1)
    Check.visibilities_refuses names_nodup (by decide) (by decide) h h'
  methodVisibilities := Section.leaf_eq (fun _ _ hd => (check_eq_ok hd).2.1)
    Check.visibilities_refuses names_nodup (by decide) (by decide) h h'
  showPackage := Section.leaf_eq (fun _ _ hd => (check_eq_ok hd).2.2.1)
    Check.bool_refuses names_nodup (by decide) (by decide) h h'
  showConstructors := Section.leaf_eq (fun _ _ hd => (check_eq_ok hd).2.2.2.1)
    Check.bool_refuses names_nodup (by decide) (by decide) h h'
  showFieldRelationships := Section.leaf_eq (fun _ _ hd => (check_eq_ok hd).2.2.2.2.1)
    Check.bool_refuses names_nodup (by decide) (by decide) h h'
  showMethodRelationships := Section.leaf_eq (fun _ _ hd => (check_eq_ok hd).2.2.2.2.2)
    Check.bool_refuses names_nodup (by decide) (by decide) h h'

end DiagramOptions

namespace ScanOptions

variable {env env' : Environment} {given : Table} {o o' : ScanOptions}

theorem check_eq_ok {t : Table} (h : check t = .ok o) :
    Check.setting t "include_paths" [] Check.texts = .ok o.includePaths ∧
      Check.setting t "exclude_patterns" [] Check.texts = .ok o.excludePatterns := by
  obtain ⟨⟨i,e⟩,hall,rfl⟩ := map_eq_ok.mp (Checked.eq_ok_of_withFaults h)
  exact Checked.both_eq_ok hall

structure AgreeWhereSettled (given : Table) (env env' : Environment) (o o' : ScanOptions) :
    Prop where
  includePaths : Section.Settled given env env' "include_paths" → o.includePaths = o'.includePaths
  excludePatterns : Section.Settled given env env' "exclude_patterns" →
    o.excludePatterns = o'.excludePatterns

theorem load_agree (h : load env given = .ok o) (h' : load env' given = .ok o') :
    AgreeWhereSettled given env env' o o' where
  includePaths := Section.leaf_eq (fun _ _ ho => (check_eq_ok ho).1) Check.texts_refuses
    (by decide) (by decide) (by decide) h h'
  excludePatterns := Section.leaf_eq (fun _ _ ho => (check_eq_ok ho).2) Check.texts_refuses
    (by decide) (by decide) (by decide) h h'

end ScanOptions

end ClassDiagram
