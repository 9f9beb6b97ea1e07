import ClassDiagram.Vocabulary

/-!
What can be wrong with settings. A fault says where it is and of which kind it is; the settings as a whole
fail with all their faults, or because a text could not be read at all.
-/

namespace ClassDiagram

inductive LocationStep where
  | name (s : String)
  | index (n : Nat)
  deriving DecidableEq, Repr

inductive FaultKind where
  | intParsing
  | intParsingSize
  | intFromFloat
  | intType
  | finiteNumber
  | boolParsing
  | boolType
  | setType
  | listType
  | stringType
  | visibility
  | sectionType (section_ : String)
  | pathType
  | unknownName
  | unreadable (message : String)
  deriving DecidableEq, Repr

namespace FaultKind

def code : FaultKind → String
  | .intParsing => "int_parsing"
  | .intParsingSize => "int_parsing_size"
  | .intFromFloat => "int_from_float"
  | .intType => "int_type"
  | .finiteNumber => "finite_number"
  | .boolParsing => "bool_parsing"
  | .boolType => "bool_type"
  | .setType => "set_type"
  | .listType => "list_type"
  | .stringType => "string_type"
  | .visibility => "enum"
  | .sectionType _ => "model_type"
  | .pathType => "path_type"
  | .unknownName => "extra_forbidden"
  | .unreadable _ => "value_error"

def message : FaultKind → String
  | .intParsing => "Input should be a valid integer, unable to parse string as an integer"
  | .intParsingSize => "Unable to parse input string as an integer, exceeded maximum size"
  | .intFromFloat => "Input should be a valid integer, got a number with a fractional part"
  | .intType => "Input should be a valid integer"
  | .finiteNumber => "Input should be a finite number"
  | .boolParsing => "Input should be a valid boolean, unable to interpret input"
  | .boolType => "Input should be a valid boolean"
  | .setType => "Input should be a valid set"
  | .listType => "Input should be a valid list"
  | .stringType => "Input should be a valid string"
  | .visibility => "Input should be 'public', 'protected', 'private' or 'package'"
  | .sectionType section_ => s!"Input should be a valid dictionary or instance of {section_}"
  | .pathType => "Input is not a valid path for <class 'pathlib.Path'>"
  | .unknownName => "Extra inputs are not permitted"
  | .unreadable message => s!"Value error, {message}"

end FaultKind

structure Fault where
  location : List LocationStep
  kind : FaultKind
  deriving DecidableEq, Repr

def Fault.under (step : LocationStep) (f : Fault) : Fault := { f with location := step :: f.location }

inductive SectionError where
  | invalid (faults : List Fault)
  | unreadableVariable (setting : String)
  deriving DecidableEq, Repr

inductive SettingsError where
  | inSection (e : SectionError)
  | badToml
  | badEncoding
  deriving DecidableEq, Repr

def unreadableVariableMessage (setting : String) : String :=
  s!"error parsing value for field \"{setting}\" from source \"EnvSettingsSource\""

end ClassDiagram
