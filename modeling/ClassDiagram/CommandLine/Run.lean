import ClassDiagram.CommandLine.Request
import ClassDiagram.PlantUml
import ClassDiagram.Project.Documents
import ClassDiagram.Project.Sources
import ClassDiagram.Settings.Load

/-!
Requests carried out. A request reads settings and sources and gives an exit code, a text for the output,
what is to be reported, and, when a diagram goes to a file, the file system with that file.
-/

namespace ClassDiagram.CommandLine

inductive RunError where
  | settings (e : SettingsError)
  | project (e : ProjectError)
  | unwritable (fault : PathFault) (path : String)
  deriving DecidableEq, Repr

structure Outcome where
  exitCode : Nat := 0
  output : String := ""
  log : Log := []
  written : Option (Place × List UInt8) := none
  deriving DecidableEq, Repr

def Request.settings (r : Request) (s : Settings) : Settings :=
  { s with diagram := r.overrides.apply s.diagram, workers := r.workers.getD s.workers }

def typeLine (e : Entity) : String := wordOf e.kind ++ " " ++ e.qualifiedName

def typeLines (documents : List Document) : String :=
  String.join ((documents.flatMap Document.types).map fun e => typeLine e ++ "\n")

def Request.finish (r : Request) (fs : FileSystem) (documents : List Document) (log : Log) :
    Except RunError Outcome :=
  match r.command with
  | .types => .ok { output := typeLines documents, log }
  | .render =>
      let text := PlantUml.render documents r.title
      match r.output with
      | none => .ok { output := text, log }
      | some p =>
          match fs.write p text.toUTF8.toList with
          | .error fault => .error (.unwritable fault p.toString)
          | .ok (place, _) =>
              .ok { log := log ++ [.wrote p.toString], written := some (place, text.toUTF8.toList) }

def Request.run (r : Request) (fs : FileSystem) (env : Environment) : Except RunError Outcome := do
  let settings := r.settings (← (Settings.load fs env []).mapError .settings)
  let (sources, collected) ← (collectSources fs .standard settings r.paths).mapError .project
  if sources = [] then
    pure { exitCode := 1, log := collected ++ [.nothingFound (r.paths.map Path.toString)] }
  else
    let (result, built) ← (buildDocuments fs .standard settings sources).mapError .project
    r.finish fs result.documents (collected ++ built)

def Request.level (r : Request) : Level := if r.verbose then .debug else .info

def eventLine (e : Event) : String :=
  let label := e.level.label
  label ++ String.ofList (List.replicate (8 - label.length) ' ') ++ " " ++ e.message

def Request.report (r : Request) (log : Log) : List String := (log.atLeast r.level).map eventLine

end ClassDiagram.CommandLine
