import ClassDiagram.Project.Scope

/-!
The source files that a list of paths stands for. A file stands for itself, and a directory for what a
scan of it gives: in the scope of the project when it lies in the project, and in a scope of its own when
it does not. A file that is reached twice is collected once.
-/

namespace ClassDiagram

structure Collection where
  sources : List Path := []
  keys : List Path := []
  log : Log := []
  deriving DecidableEq, Repr

namespace Collection

def add (fs : FileSystem) (c : Collection) (p : Path) : Except ProjectError Collection := do
  let key ← (fs.resolve p).mapError .linkCircle
  if key ∈ c.keys then pure { c with log := c.log ++ [.alreadyCollected p.toString] }
  else pure { c with sources := c.sources ++ [p], keys := c.keys ++ [key] }

def addAll (fs : FileSystem) : Collection → List Path → Except ProjectError Collection
  | c, [] => .ok c
  | c, p :: ps => do addAll fs (← add fs c p) ps

end Collection

-- The paths of the files below a directory that lies in a scope: each is written with the directory as
-- it was given.
def scanWithin (fs : FileSystem) (r : Registry) (s : Scope) (p start : Path) :
    Except ProjectError (List Path) := do
  let files ← s.scan fs r start
  pure (files.map fun f =>
    let file := Path.ofString f
    p.join ((file.relativeTo? start).getD file))

def sourcesAt (fs : FileSystem) (r : Registry) (options : ScanOptions) (s : Scope) (p : Path) :
    Except ProjectError (List Path × Log) := do
  if fs.isDirectory p then
    let resolved ← (fs.resolve p).mapError .linkCircle
    match resolved.relativeTo? s.root with
    | some start => pure (← scanWithin fs r s p start, [])
    | none =>
        let (own, log) ← Scope.ofRoot fs p options
        let files ← own.scan fs r {}
        pure (files.map fun f => p.join (Path.ofString f), log)
  else if fs.isFile p then pure ([p], [])
  else pure ([], [.noSuchPath p.toString])

def collectFrom (fs : FileSystem) (r : Registry) (settings : Settings) (s : Scope) :
    Collection → List Path → Except ProjectError Collection
  | c, [] => .ok c
  | c, p :: ps => do
      let (files, log) ← sourcesAt fs r settings.scan s (settings.projectRoot.join p)
      let c ← Collection.addAll fs { c with log := c.log ++ log } files
      collectFrom fs r settings s c ps

def collectSources (fs : FileSystem) (r : Registry) (settings : Settings) (paths : List Path) :
    Except ProjectError (List Path × Log) := do
  let (s, log) ← Scope.ofRoot fs settings.projectRoot settings.scan
  let c ← collectFrom fs r settings s { log } paths
  pure (c.sources, c.log)

end ClassDiagram
