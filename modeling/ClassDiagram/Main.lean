import ClassDiagram.CommandLine.Run

/-!
The program: reads the arguments, the environment and the files that a request may need, carries the
request out, and writes what it comes to.
-/

namespace ClassDiagram.Program

abbrev Loader := StateT Entry IO

def placeOf (path : String) : Place := (Path.ofString path).parts

def textOf (place : Place) : String := (FileSystem.pathOf place).toString

def isWanted (name : String) : Bool :=
  name = configFileName || name = ignoreFileName || (Registry.standard.forFile? name).isSome

def attempt {α : Type} (action : IO α) : IO (Option α) := do
  match ← action.toBaseIO with
  | .ok a => pure (some a)
  | .error _ => pure none

def note (place : Place) (e : Entry) : Loader Unit :=
  modify fun tree => if (tree.at? place).isSome then tree else tree.put place e

def bytesOf (place : Place) : IO (List UInt8) := do
  if isWanted (place.getLast?.getD "") then
    let bytes ← attempt (IO.FS.readBinFile ⟨textOf place⟩)
    pure ((bytes.map (·.toList)).getD [])
  else pure []

partial def load (deep : Bool) (place : Place) : Loader Unit := do
  let entry : IO.FS.DirEntry := ⟨⟨textOf place.dropLast⟩, place.getLast?.getD "."⟩
  let kind : Option IO.FS.FileType := (← attempt entry.path.symlinkMetadata).map fun m => m.type
  match kind with
  | none => pure ()
  | some .dir =>
      note place (.dir [])
      if deep then
        for child in ((← attempt entry.path.readDir).getD #[]) do
          load true (place ++ [child.fileName])
  | some .symlink =>
      match ← attempt (IO.FS.realPath entry.path) with
      | some target =>
          note place (.link target.toString)
          load false (placeOf target.toString)
      | none => note place (.link (textOf (place ++ ["missing"])))
  | some _ => note place (.file (← bytesOf place))

partial def loadWay (deep : Bool) (here : Place) : List String → Loader Unit
  | [] => load deep here
  | ".." :: rest => loadWay deep here.dropLast rest
  | name :: rest => do
      load false (here ++ [name])
      match (← get).at? (here ++ [name]) with
      | some (.link target) => loadWay deep [] (placeOf target ++ rest)
      | some _ => loadWay deep (here ++ [name]) rest
      | none => pure ()

def loadPath (deep : Bool) (current : Place) (p : Path) : Loader Unit :=
  loadWay deep (FileSystem.startOf current p) p.parts

def loadFor (r : CommandLine.Request) (current : Place) (env : Environment) : Loader Unit := do
  loadWay false [] current
  for place in Settings.upwards current do
    load false (place ++ [configFileName])
  let root := match Settings.load { tree := ← get, current } env [] with
    | .ok s => s.projectRoot
    | .error _ => FileSystem.pathOf current
  loadPath false current root
  loadPath false current (root.join (Path.ofString ignoreFileName))
  for p in r.paths do
    loadPath true current (root.join p)
  for p in r.output do
    loadPath false current p

def environmentPairs : IO (List (String × String)) := do
  let bytes ← attempt (IO.FS.readBinFile ⟨"/proc/self/environ"⟩)
  let text := Text.Utf8.decode ((bytes.map (·.toList)).getD [])
  let pieces := Text.splitAtEach (· = '\x00') text.toList
  pure (pieces.filterMap fun piece => match CommandLine.atEquals piece with
    | (name, some value) => some (name, value)
    | _ => none)

def faultLine (f : Fault) : String :=
  let steps := f.location.map fun
    | .name s => s
    | .index n => toString n
  ".".intercalate steps ++ ": " ++ f.kind.message

def stopLines : CommandLine.RunError → List String
  | .settings (.inSection (.invalid faults)) => faults.map faultLine
  | .settings (.inSection (.unreadableVariable name)) => [unreadableVariableMessage name]
  | .settings .badToml => [configFileName ++ " is not a valid TOML document"]
  | .settings .badEncoding => [configFileName ++ " is not encoded in UTF-8"]
  | .project e => [e.message]
  | .unwritable fault path => [fault.message path]

def usage : String := "Usage: class-atlas [--verbose] (render | types) [OPTIONS] PATHS..."

def carryOut (r : CommandLine.Request) : IO UInt32 := do
  let current := placeOf (← IO.currentDir).toString
  let env := Environment.ofVariables (← environmentPairs)
  let (_, tree) ← (loadFor r current env).run (.dir [])
  match r.run { tree, current } env with
  | .error e =>
      for line in stopLines e do
        IO.eprintln line
      pure 1
  | .ok outcome =>
      for line in r.report outcome.log do
        IO.eprintln line
      IO.print outcome.output
      for (place, bytes) in outcome.written do
        IO.FS.writeBinFile ⟨textOf place⟩ ⟨bytes.toArray⟩
      pure outcome.exitCode.toUInt32

end ClassDiagram.Program

open ClassDiagram in
def main (args : List String) : IO UInt32 := do
  match CommandLine.asked args with
  | .misuse =>
      IO.eprintln Program.usage
      pure 2
  | .help =>
      IO.println Program.usage
      pure 0
  | .request r => Program.carryOut r
