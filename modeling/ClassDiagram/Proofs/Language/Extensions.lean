import ClassDiagram.Proofs.Language.Registrations

/-!
Whether a file goes to a language that takes its extension. An extension is held by a name, and a name can be
registered again for a language that takes other extensions. The file then goes to the new language although
that one does not take it. This happens for an extension exactly when the last language that took it was
followed by another one of its name, so never when a name keeps the extensions it was registered with.
-/

namespace ClassDiagram

namespace Language

variable {ls : List Language} {extension : String}

theorem lastTaking_eq_some {l : Language} (h : lastTaking ls extension = some l) :
    ∃ before after, ls = before ++ l :: after ∧ extension ∈ l.extensions ∧
      ∀ m ∈ after, extension ∉ m.extensions := by
  obtain ⟨htakes,later,earlier,hsplit,hlater⟩ := List.find?_eq_some_iff_append.mp h
  refine ⟨earlier.reverse,later.reverse,?_,by simpa using htakes,?_⟩
  · have hback := congrArg List.reverse hsplit
    simpa using hback
  · intro m hm
    simpa using hlater m (List.mem_reverse.mp hm)

theorem lastTaking_split {before after : List Language} {l : Language}
    (htakes : extension ∈ l.extensions) (hafter : ∀ m ∈ after, extension ∉ m.extensions) :
    lastTaking (before ++ l :: after) extension = some l := by
  have hnone : lastTaking after extension = none := lastTaking_eq_none.mpr hafter
  rw [lastTaking] at hnone ⊢
  simp [List.find?_append,hnone,htakes]

theorem lastNamed_split (before after : List Language) (l : Language) :
    lastNamed (before ++ l :: after) l.name = (lastNamed after l.name).or (some l) := by
  simp [lastNamed,List.find?_append]

theorem lastNamed_eq_none {name : String} :
    lastNamed ls name = none ↔ ∀ l ∈ ls, l.name ≠ name := by
  simp [lastNamed]

theorem mem_of_lastNamed {l : Language} {name : String} (h : lastNamed ls name = some l) :
    l ∈ ls ∧ l.name = name :=
  ⟨List.mem_reverse.mp (List.mem_of_find?_eq_some h),by simpa using List.find?_some h⟩

-- The last language that takes the extension is followed by another one of its name.
def Superseded (ls : List Language) (extension : String) : Prop :=
  ∃ before l after, ls = before ++ l :: after ∧ extension ∈ l.extensions ∧
    (∀ m ∈ after, extension ∉ m.extensions) ∧ ∃ m ∈ after, m.name = l.name

def NamesKeepExtensions (ls : List Language) : Prop :=
  ls.Pairwise fun l m => m.name = l.name → l.extensions ⊆ m.extensions

instance (ls : List Language) : Decidable (NamesKeepExtensions ls) :=
  inferInstanceAs (Decidable (ls.Pairwise _))

theorem NamesKeepExtensions.not_superseded (h : NamesKeepExtensions ls) (extension : String) :
    ¬ Superseded ls extension := by
  rintro ⟨before,l,after,rfl,htakes,hafter,m,hm,hname⟩
  have hlater := (List.pairwise_cons.mp (List.pairwise_append.mp h).2.1).1 m hm
  exact hafter m hm (hlater hname htakes)

end Language

namespace Registry

open ClassDiagram.Language RegistryStep

variable {r : Registry} {ls before after : List Language} {l c : Language} {path : String}

-- What answers for the name of `l` is `l` itself, or one registered later, which does not take the extension.
theorem Records.taken_of_split (h : r.Records (before ++ l :: after))
    (htakes : Text.lower (Path.ofString path).suffix ∈ l.extensions)
    (hafter : ∀ m ∈ after, Text.lower (Path.ofString path).suffix ∉ m.extensions)
    (hc : r.forFile? path = some c) :
    Text.lower (Path.ofString path).suffix ∈ c.extensions ↔ ∀ m ∈ after, m.name ≠ l.name := by
  rw [h.forFile?_eq,lastTaking_split htakes hafter,Option.bind_some,h.get?_eq,lastNamed_split] at hc
  cases hlater : lastNamed after l.name with
  | none =>
    rw [hlater,Option.none_or] at hc
    obtain rfl := Option.some.inj hc
    exact iff_of_true htakes (lastNamed_eq_none.mp hlater)
  | some found =>
    rw [hlater,Option.some_or] at hc
    obtain rfl := Option.some.inj hc
    obtain ⟨hmem,hsame⟩ := mem_of_lastNamed hlater
    exact iff_of_false (hafter found hmem) fun hnone => hnone found hmem hsame

theorem Records.taken_iff (h : r.Records ls) (hc : r.forFile? path = some c) :
    Text.lower (Path.ofString path).suffix ∈ c.extensions ↔
      ¬ Superseded ls (Text.lower (Path.ofString path).suffix) := by
  constructor
  · rintro hmem ⟨before,l,after,rfl,htakes,hafter,m,hm,hname⟩
    exact (h.taken_of_split htakes hafter hc).mp hmem m hm hname
  · intro hnot
    have hlast := hc
    rw [h.forFile?_eq,Option.bind_eq_some_iff] at hlast
    obtain ⟨l,hl,-⟩ := hlast
    obtain ⟨before,after,rfl,htakes,hafter⟩ := lastTaking_eq_some hl
    refine (h.taken_of_split htakes hafter hc).mpr fun m hm hname => ?_
    exact hnot ⟨before,l,after,rfl,htakes,hafter,m,hm,hname⟩

theorem taken_unless_superseded (steps : List RegistryStep) (path : String) (available : List Plugin)
    {c : Language}
    (h : ((initial.performAll steps).1.perform (.findForFile path available)).language = some c) :
    let ls := registered (steps ++ [.findForFile path available])
    let suffix := Text.lower (Path.ofString path).suffix
    (suffix ∈ c.extensions ↔ ¬ Superseded ls suffix) ∧
      (NamesKeepExtensions ls → suffix ∈ c.extensions) := by
  intro ls suffix
  have hiff : suffix ∈ c.extensions ↔ ¬ Superseded ls suffix :=
    (perform_records steps (.findForFile path available)).taken_iff h
  exact ⟨hiff,fun hkeeps => hiff.mpr (hkeeps.not_superseded suffix)⟩

def renewals : List RegistryStep :=
  [.register ⟨"kotlin",[".kt"]⟩,.register ⟨"script",[".kt"]⟩,.register ⟨"kotlin",[".kts",".kt"]⟩]

theorem taken_unless_superseded_renewals :
    let answer := ((initial.performAll renewals).1.perform (.findForFile "src/Main.KT" [])).language
    answer = some ⟨"kotlin",[".kts",".kt"]⟩ ∧
      NamesKeepExtensions (registered (renewals ++ [.findForFile "src/Main.KT" []])) ∧
      Text.lower (Path.ofString "src/Main.KT").suffix ∈ [".kts",".kt"] := by
  intro answer
  have hanswer : answer = some ⟨"kotlin",[".kts",".kt"]⟩ := by decide +kernel
  have hkeeps : NamesKeepExtensions (registered (renewals ++ [.findForFile "src/Main.KT" []])) := by
    decide
  exact ⟨hanswer,hkeeps,(taken_unless_superseded renewals "src/Main.KT" [] hanswer).2 hkeeps⟩

-- Before Java is loaded, it is Java that renews the name, and the new language's own file that it gets.
theorem renewed_language_gets_foreign_file :
    let renewed : Language := ⟨"java",[".jav"]⟩
    let after := ((initial.performAll [.loadJava,.register renewed]).1.perform
      (.findForFile "A.java" [])).language
    let before := ((initial.performAll [.register renewed]).1.perform
      (.findForFile "A.jav" [])).language
    (after = some renewed ∧ Text.lower (Path.ofString "A.java").suffix ∉ renewed.extensions) ∧
      before = some Language.java ∧
      Text.lower (Path.ofString "A.jav").suffix ∉ Language.java.extensions := by
  decide +kernel

end Registry

end ClassDiagram
