import ClassDiagram.Project.Scope
import ClassDiagram.Diagram.Build
import ClassDiagram.Java.Source

/-!
The documents of a project: one for each source file that is in a known language and can be read, in the
order of the files. The other files are skipped, which is reported.
-/

namespace ClassDiagram

structure BuildResult where
  documents : List Document := []
  skipped : List String := []
  deriving DecidableEq, Repr

def buildFile (fs : FileSystem) (r : Registry) (options : DiagramOptions) (p : Path) :
    Except ProjectError (Option Document × Log) :=
  match r.forFile? p.name with
  | none => .ok (none, [.unsupported p.toString])
  | some _ =>
      match fs.read p with
      | .error fault => .ok (none, [.unreadable p.toString (fault.message p.toString)])
      | .ok bytes => do
          let (unit, log) ← (readSource p.toString bytes).mapError .badTree
          let document := unit.document options none
          pure (some document, log ++ document.types.map fun e => .built e.kind e.qualifiedName)

def buildFiles (fs : FileSystem) (r : Registry) (options : DiagramOptions) :
    List Path → Except ProjectError (List (Path × Option Document) × Log)
  | [] => .ok ([], [])
  | p :: ps => do
      let (document, log) ← buildFile fs r options p
      let (rest, more) ← buildFiles fs r options ps
      pure ((p, document) :: rest, log ++ more)

-- The workers of a pool are given all the files. What they make of them is taken in the order of the files,
-- whatever the order they finish in, and so is the first failure.
def buildPooled (fs : FileSystem) (r : Registry) (options : DiagramOptions) (ps : List Path) :
    Except ProjectError (List (Path × Option Document) × Log) := do
  let built ← (ps.map (buildFile fs r options)).mapM id
  pure (ps.zip (built.map Prod.fst), built.flatMap Prod.snd)

theorem buildPooled_eq (fs : FileSystem) (r : Registry) (options : DiagramOptions) (ps : List Path) :
    buildPooled fs r options ps = buildFiles fs r options ps := by
  induction ps with
  | nil => rfl
  | cons p ps ih =>
    rw [buildFiles, ← ih]
    simp only [buildPooled, List.map_cons, List.mapM_cons, id]
    cases buildFile fs r options p with
    | error e => rfl
    | ok first => cases (ps.map (buildFile fs r options)).mapM id <;> rfl

def BuildResult.ofBuilt (built : List (Path × Option Document)) : BuildResult where
  documents := built.filterMap (·.2)
  skipped := (built.filter (·.2.isNone)).map (·.1.toString)

def buildDocuments (fs : FileSystem) (r : Registry) (settings : Settings) (sources : List Path) :
    Except ProjectError (BuildResult × Log) := do
  let (built, log) ←
    if 1 < settings.workers ∧ 1 < sources.length then buildPooled fs r settings.diagram sources
    else buildFiles fs r settings.diagram sources
  let result := BuildResult.ofBuilt built
  pure (result, log ++ [.finished result.documents.length sources.length result.skipped.length])

-- The number of workers makes no difference.
theorem buildDocuments_eq (fs : FileSystem) (r : Registry) (settings : Settings) (sources : List Path) :
    buildDocuments fs r settings sources = (do
      let (built, log) ← buildFiles fs r settings.diagram sources
      let result := BuildResult.ofBuilt built
      pure (result, log ++ [.finished result.documents.length sources.length result.skipped.length])) := by
  rw [buildDocuments, buildPooled_eq, ite_self]

end ClassDiagram
