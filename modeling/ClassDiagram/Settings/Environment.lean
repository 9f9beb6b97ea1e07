import ClassDiagram.Settings.Fault
import ClassDiagram.Settings.Json
import ClassDiagram.Text.LowerCase

/-!
Settings that are given by environment variables. Capitals in the name of a variable do not matter. The
settings of a section can be given together, as a table in JSON, or one by one: then the name of the
section and the name of the setting have two underscores between them.
-/

namespace ClassDiagram

abbrev Environment := List (String × String)

namespace Environment

def set (env : Environment) (name value : String) : Environment :=
  match env with
  | [] => [(name, value)]
  | (n, old) :: rest => if n = name then (name, value) :: rest else (n, old) :: set rest name value

-- The environment of variables as they are given: of two that differ in capitals only, the later one
-- counts.
def ofVariables (pairs : List (String × String)) : Environment :=
  pairs.foldl (fun env v => set env (Text.lower v.1) v.2) []

end Environment

structure SettingName where
  name : String
  isJson : Bool
  deriving DecidableEq, Repr

def ownVariables (env : Environment) : List SettingName → Except SectionError Table
  | [] => .ok []
  | s :: rest => do
      let own ← match env.lookup s.name with
        | none => pure []
        | some text =>
            if s.isJson then match Json.parse text with
              | none => .error (.unreadableVariable s.name)
              | some .null => pure []
              | some v => pure [(s.name, v)]
            else pure [(s.name, .text text)]
      pure (own ++ (← ownVariables env rest))

def splitAtUnderscores : List Char → List (List Char)
  | '_' :: '_' :: cs => [] :: splitAtUnderscores cs
  | c :: cs => match splitAtUnderscores cs with
    | [] => [[c]]
    | piece :: pieces => (c :: piece) :: pieces
  | [] => [[]]

def putWithin (v : Value) : List String → Table → Table
  | [], t => t
  | [name], t => t.set name v
  | name :: names, t =>
      match t.lookup name with
      | none => t.set name (.table (putWithin v names []))
      | some (.table inner) => t.set name (.table (putWithin v names inner))
      | some _ => t

def variableValue (settings : List SettingName) (names : List String) (text : String) : Option Value :=
  match names with
  | [name] => if ⟨name, true⟩ ∈ settings && text ≠ "" then Json.parse text else some (.text text)
  | _ => some (.text text)

def singleVariables (start : List Char) (settings : List SettingName) :
    Environment → Table → Option Table
  | [], t => some t
  | (name, text) :: rest, t =>
      if start.isPrefixOf name.toList then
        let names := (splitAtUnderscores (name.toList.drop start.length)).map String.ofList
        match variableValue settings names text with
        | some v => singleVariables start settings rest (putWithin v names t)
        | none => none
      else singleVariables start settings rest t

def knownName (known : List String) (name : String) : String :=
  (known.find? (· = Text.lower name)).getD name

def renameKnown (known : List String) (t : Table) : Table :=
  t.foldl (fun renamed e => Table.set renamed (knownName known e.1) e.2) []

def sectionVariables (env : Environment) (variable_ : String) (settings : List SettingName) :
    Option (Option Value) :=
  let start := (variable_ ++ "__").toList
  let known := settings.map SettingName.name
  match env.lookup variable_ with
  | none => do
      let t ← singleVariables start settings env []
      pure (if t.isEmpty then none else some (.table (renameKnown known t)))
  | some text => do
      match ← Json.parse text with
      | .null => pure none
      | .table t =>
          let singles ← singleVariables start settings env []
          pure (some (.table (renameKnown known (Table.over t singles))))
      | v => pure (some v)

end ClassDiagram
