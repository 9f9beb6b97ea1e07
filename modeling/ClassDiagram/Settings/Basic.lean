import ClassDiagram.Diagram.Options
import ClassDiagram.FileSystem.Path

/-!
The settings of a run: where the project is, how many files are built at once, what is scanned and what
is shown.
-/

namespace ClassDiagram

structure ScanOptions where
  includePaths : List String := []
  excludePatterns : List String := []
  deriving DecidableEq, Repr

structure Settings where
  projectRoot : Path
  workers : Int := 1
  diagram : DiagramOptions := {}
  scan : ScanOptions := {}
  deriving DecidableEq, Repr

end ClassDiagram
