import ClassDiagram.FileSystem.Path
import ClassDiagram.Log

/-!
The languages that sources can be in. A language takes file name extensions; a file belongs to the
language that took its extension last. A language registered under a name that is in use replaces the
one before, and the extensions taken under that name stay with it. No language is there from the start:
Java, the built-in one, is registered when it is loaded, by itself or at the first search for plugins.
-/

namespace ClassDiagram

structure Language where
  name : String
  extensions : List String
  deriving DecidableEq, Repr

def Language.java : Language := ⟨"java", [".java"]⟩

inductive PluginAction where
  | registers (language : Language)
  | failsToLoad
  | failsWhenCalled
  deriving DecidableEq, Repr

structure Plugin where
  name : String
  group : String
  action : PluginAction
  deriving DecidableEq, Repr

def Plugin.languageGroup : String := "class_atlas.languages"

-- Plugins are never looked for without Java, so there is no fourth stage.
inductive Stage where
  | fresh
  | javaLoaded
  | discovered
  deriving DecidableEq, Repr

structure Registry where
  languages : List (String × Language) := []
  holders : List (String × String) := []
  stage : Stage := .fresh
  deriving DecidableEq, Repr

-- Looking for a language begins with looking for plugins, among those that are available then.
inductive RegistryStep where
  | register (language : Language)
  | loadJava
  | discover (available : List Plugin)
  | find (name : String) (available : List Plugin)
  | findForFile (path : String) (available : List Plugin)
  deriving DecidableEq, Repr

structure RegistryReply where
  registry : Registry
  log : Log := []
  language : Option Language := none
  deriving DecidableEq, Repr

namespace Registry

def initial : Registry := {}

-- The newest entry for a name or an extension is the one that counts.
def register (r : Registry) (l : Language) : Registry :=
  { r with
    languages := (l.name, l) :: r.languages
    holders := l.extensions.foldl (fun holders e => (e, l.name) :: holders) r.holders }

def get? (r : Registry) (name : String) : Option Language := r.languages.lookup name

def forFile? (r : Registry) (path : String) : Option Language :=
  match r.holders.lookup (Text.lower (Path.ofString path).suffix) with
  | none => none
  | some name => r.get? name

def loadJava (r : Registry) : Registry :=
  match r.stage with
  | .fresh => { r.register Language.java with stage := .javaLoaded }
  | .javaLoaded | .discovered => r

def load (r : Registry) (p : Plugin) : Registry × Log :=
  match p.action with
  | .registers l => (r.register l, [])
  | .failsToLoad | .failsWhenCalled => (r, [.pluginFailed p.name])

def loadAll : Registry → List Plugin → Registry × Log
  | r, [] => (r, [])
  | r, p :: ps =>
      let (r₁, log) := r.load p
      let (r₂, more) := loadAll r₁ ps
      (r₂, log ++ more)

def discover (r : Registry) (available : List Plugin) : Registry × Log :=
  match r.stage with
  | .discovered => (r, [])
  | .fresh | .javaLoaded =>
      loadAll { r.loadJava with stage := .discovered }
        (available.filter fun p => p.group = Plugin.languageGroup)

-- What a search finds when nothing was registered before and no plugin is installed.
def standard : Registry := (initial.discover []).1

def perform (r : Registry) : RegistryStep → RegistryReply
  | .register l => { registry := r.register l }
  | .loadJava => { registry := r.loadJava }
  | .discover available =>
      let (r₁, log) := r.discover available
      { registry := r₁, log }
  | .find name available =>
      let (r₁, log) := r.discover available
      { registry := r₁, log, language := r₁.get? name }
  | .findForFile path available =>
      let (r₁, log) := r.discover available
      { registry := r₁, log, language := r₁.forFile? path }

def performAll : Registry → List RegistryStep → Registry × Log
  | r, [] => (r, [])
  | r, step :: steps =>
      let reply := r.perform step
      let (r₁, more) := performAll reply.registry steps
      (r₁, reply.log ++ more)

end Registry

end ClassDiagram
