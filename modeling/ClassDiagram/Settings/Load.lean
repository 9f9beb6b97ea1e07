import ClassDiagram.FileSystem.Tree
import ClassDiagram.Settings.Basic
import ClassDiagram.Settings.Check
import ClassDiagram.Settings.Environment
import ClassDiagram.Settings.Toml.Document
import ClassDiagram.Text.Utf8

/-!
The settings of a run, put together from what is given directly, from environment variables and from the
nearest configuration file. Each setting is taken from the first of these that has it. The settings of a
section can also come from variables that have just their names; these count least.
-/

namespace ClassDiagram

def configFileName : String := "class-atlas.toml"

def variableStart : String := "class_atlas_"

namespace Section

-- The value that a table has for a name: under that very name, or else under one that differs from it in
-- capitals.
def given? (t : Table) (name : String) : Option Value :=
  match t.lookup name with
  | some v => some v
  | none => (t.find? fun e => Text.lower e.1 = name).map (·.2)

def knownFirst (known : List String) (t : Table) : Table :=
  known.filterMap (fun name => (given? t name).map (name, ·)) ++ t.filter fun e => Text.lower e.1 ∉ known

def load {α : Type} (names : List SettingName) (check : Table → Checked α) (env : Environment)
    (given : Table) : Except SectionError α := do
  let own ← ownVariables env names
  (check (Table.over own (knownFirst (names.map SettingName.name) given))).mapError .invalid

end Section

namespace DiagramOptions

def settingNames : List SettingName :=
  [⟨"field_visibilities", true⟩, ⟨"method_visibilities", true⟩, ⟨"show_package", false⟩,
    ⟨"show_constructors", false⟩, ⟨"show_field_relationships", false⟩,
    ⟨"show_method_relationships", false⟩]

def check (t : Table) : Checked DiagramOptions :=
  let standard : DiagramOptions := {}
  let fields := Check.setting t "field_visibilities" standard.fieldVisibilities Check.visibilities
  let methods := Check.setting t "method_visibilities" standard.methodVisibilities Check.visibilities
  let package := Check.setting t "show_package" standard.showPackage Check.bool
  let constructors := Check.setting t "show_constructors" standard.showConstructors Check.bool
  let fieldLines := Check.setting t "show_field_relationships" standard.showFieldRelationships Check.bool
  let methodLines := Check.setting t "show_method_relationships" standard.showMethodRelationships Check.bool
  let all := fields.both (methods.both (package.both (constructors.both (fieldLines.both methodLines))))
  Check.withFaults (Check.unknownNames (settingNames.map SettingName.name) t) (all.map
    fun (fieldVisibilities, methodVisibilities, showPackage, showConstructors, showFieldRelationships,
      showMethodRelationships) =>
      { fieldVisibilities, methodVisibilities, showPackage, showConstructors, showFieldRelationships,
        showMethodRelationships })

def load : Environment → Table → Except SectionError DiagramOptions := Section.load settingNames check

end DiagramOptions

namespace ScanOptions

def settingNames : List SettingName := [⟨"include_paths", true⟩, ⟨"exclude_patterns", true⟩]

def check (t : Table) : Checked ScanOptions :=
  let included := Check.setting t "include_paths" [] Check.texts
  let excluded := Check.setting t "exclude_patterns" [] Check.texts
  Check.withFaults (Check.unknownNames (settingNames.map SettingName.name) t) ((included.both excluded).map
    fun (includePaths, excludePatterns) => { includePaths, excludePatterns })

def load : Environment → Table → Except SectionError ScanOptions := Section.load settingNames check

end ScanOptions

namespace Settings

def names : List String := ["project_root", "workers", "diagram", "scan"]

def upwards (place : Place) : List Place :=
  (List.range (place.length + 1)).map fun i => place.take (place.length - i)

def configFile? (fs : FileSystem) : Option Path :=
  ((upwards fs.current).map fun place =>
    (FileSystem.pathOf place).join (Path.ofString configFileName)).find? fs.isFile

def fromFile (fs : FileSystem) : Except SettingsError Table :=
  match configFile? fs with
  | none => .ok []
  | some p =>
      match Text.Utf8.decodeStrict? ((fs.read p).toOption.getD []) with
      | none => .error .badEncoding
      | some text => match Toml.parse text with
        | none => .error .badToml
        | some t => .ok (Section.knownFirst names t)

def plainVariable (env : Environment) (name : String) : Table :=
  match env.lookup (variableStart ++ name) with
  | some text => [(name, .text text)]
  | none => []

def sectionVariable (env : Environment) (name : String) (settings : List SettingName) :
    Except SectionError Table :=
  match sectionVariables env (variableStart ++ name) settings with
  | none => .error (.unreadableVariable name)
  | some none => .ok []
  | some (some v) => .ok [(name, v)]

def fromEnvironment (env : Environment) : Except SectionError Table := do
  let diagram ← sectionVariable env "diagram" DiagramOptions.settingNames
  let scan ← sectionVariable env "scan" ScanOptions.settingNames
  pure (plainVariable env "project_root" ++ plainVariable env "workers" ++ diagram ++ scan)

-- A section of the settings. A section that is not given is made from what is standard, and what is
-- wrong then is wrong with the section alone; otherwise it is one of the faults of the settings.
def sectionOf {α : Type} (t : Table) (name label : String) (load : Table → Except SectionError α) :
    Except SectionError (Checked α) :=
  match t.lookup name with
  | none => (load []).map .ok
  | some (.table given) =>
      .ok (match load given with
        | .ok a => .ok a
        | .error (.invalid faults) => .error (faults.map (Fault.under (.name name)))
        | .error (.unreadableVariable setting) =>
            .error [⟨[.name name], .unreadable (unreadableVariableMessage setting)⟩])
  | some _ => .ok (.error [⟨[.name name], .sectionType label⟩])

def ofTable (current : Path) (env : Environment) (t : Table) : Except SectionError Settings := do
  let root := Check.setting t "project_root" current Check.path
  let workers := Check.setting t "workers" 1 Check.int
  let diagram ← sectionOf t "diagram" "DiagramSettings" (DiagramOptions.load env)
  let scan ← sectionOf t "scan" "ScanSettings" (ScanOptions.load env)
  let all := root.both (workers.both (diagram.both scan))
  (Check.withFaults (Check.unknownNames names t) (all.map fun (projectRoot, workers, diagram, scan) =>
    { projectRoot, workers, diagram, scan })).mapError .invalid

def load (fs : FileSystem) (env : Environment) (given : Table) : Except SettingsError Settings := do
  let file ← fromFile fs
  let environment ← (fromEnvironment env).mapError .inSection
  let t := Table.over file (Table.over environment (Section.knownFirst names given))
  (ofTable (FileSystem.pathOf fs.current) env t).mapError .inSection

end Settings

end ClassDiagram
