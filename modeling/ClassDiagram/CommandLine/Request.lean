import ClassDiagram.CommandLine.Options
import ClassDiagram.Diagram.Options
import ClassDiagram.FileSystem.Path
import ClassDiagram.Text.Digit

/-!
What is asked for on the command line: a command, the paths it is for, and the choices that go before all
settings.
-/

namespace ClassDiagram.CommandLine

inductive Command where
  | render
  | types
  deriving DecidableEq, Repr

def Command.ofName? : String → Option Command
  | "render" => some .render
  | "types" => some .types
  | _ => none

def generalOptions : OptionSet where
  switches := [("--help", .help), ("--verbose", .verbose)]
  shortSwitches := [('v', .verbose)]
  interspersed := false

def packageSwitches : List (String × Switch) :=
  [("--package", .package true), ("--no-package", .package false)]

def Command.options : Command → OptionSet
  | .render =>
      { switches :=
          ("--help", .help) :: packageSwitches ++
            [("--constructors", .constructors true), ("--no-constructors", .constructors false),
              ("--field-relationships", .fieldRelationships true),
              ("--no-field-relationships", .fieldRelationships false),
              ("--method-relationships", .methodRelationships true),
              ("--no-method-relationships", .methodRelationships false)]
        slots := [("--output", .output), ("--title", .title), ("--workers", .workers)]
        shortSlots := [('o', .output), ('j', .workers)] }
  | .types => { switches := ("--help", .help) :: packageSwitches }

structure Overrides where
  package : Option Bool := none
  constructors : Option Bool := none
  fieldRelationships : Option Bool := none
  methodRelationships : Option Bool := none
  deriving DecidableEq, Repr

def Overrides.apply (o : Overrides) (d : DiagramOptions) : DiagramOptions :=
  { d with
    showPackage := o.package.getD d.showPackage
    showConstructors := o.constructors.getD d.showConstructors
    showFieldRelationships := o.fieldRelationships.getD d.showFieldRelationships
    showMethodRelationships := o.methodRelationships.getD d.showMethodRelationships }

structure Request where
  command : Command
  paths : List Path
  verbose : Bool := false
  output : Option Path := none
  title : Option String := none
  workers : Option Int := none
  overrides : Overrides := {}
  deriving DecidableEq, Repr

inductive Asked where
  | help
  | misuse
  | request (r : Request)
  deriving DecidableEq, Repr

def Sorted.overrides (s : Sorted) : Overrides where
  package := s.choice? fun | .package b => some b | _ => none
  constructors := s.choice? fun | .constructors b => some b | _ => none
  fieldRelationships := s.choice? fun | .fieldRelationships b => some b | _ => none
  methodRelationships := s.choice? fun | .methodRelationships b => some b | _ => none

def Command.asked (c : Command) (verbose : Bool) (args : List String) : Asked :=
  match sortArguments c.options args with
  | none => .misuse
  | some s =>
      let workers := (s.filled? .workers).map Text.integer?
      if s.has .help then .help
      else if s.operands = [] || workers = some none then .misuse
      else .request
        { command := c
          paths := s.operands.map Path.ofString
          verbose
          output := (s.filled? .output).map Path.ofString
          title := s.filled? .title
          workers := workers.join
          overrides := s.overrides }

def asked (args : List String) : Asked :=
  match sortArguments generalOptions args with
  | none => .misuse
  | some s =>
      if s.has .help then .help
      else match s.operands with
        | [] => .misuse
        | name :: rest => match Command.ofName? name with
          | none => .misuse
          | some c => c.asked (s.has .verbose) rest

end ClassDiagram.CommandLine
