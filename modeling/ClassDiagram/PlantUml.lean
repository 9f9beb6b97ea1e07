import ClassDiagram.Diagram.Document

/-!
Documents written in PlantUML: a block for every entity, then a line for every relationship. A
relationship that occurs more than once, in one document or in several, is written once, where it
occurs first.
-/

namespace ClassDiagram

def firstOccurrences {α : Type} [DecidableEq α] (seen : List α) : List α → List α
  | [] => []
  | a :: as =>
      if a ∈ seen then firstOccurrences seen as else a :: firstOccurrences (a :: seen) as

def uniqueRelationships (documents : List Document) : List Relationship :=
  firstOccurrences [] (documents.flatMap Document.relationships)

namespace PlantUml

def glyph : Visibility → String
  | .pub => "+"
  | .prot => "#"
  | .priv => "-"
  | .pkg => "~"

def inQuotes (name : String) : String := "\"" ++ name ++ "\""

def tag (present : Bool) (text : String) : String := if present then text else ""

def staticTag (present : Bool) : String := tag present "\x7bstatic\x7d "

def abstractTag (present : Bool) : String := tag present "\x7babstract\x7d "

def field (f : Field) : String :=
  let text := glyph f.visibility ++ staticTag f.isStatic ++ f.name
  if f.type = "" then text else text ++ " : " ++ f.type

def method (m : Method) : String :=
  glyph m.visibility ++ staticTag m.isStatic ++ abstractTag m.isAbstract ++ m.name ++ "(" ++
    ", ".intercalate m.parameters ++ ") : " ++ m.returnType

def header (e : Entity) : String := wordOf e.kind ++ " " ++ inQuotes e.qualifiedName ++ " \x7b"

def entity (e : Entity) : List String :=
  header e :: e.fields.map (fun f => "  " ++ field f) ++ e.methods.map (fun m => "  " ++ method m) ++
    ["\x7d"]

def relationship (r : Relationship) : String :=
  inQuotes r.source ++ " " ++ wordOf r.connector ++ " " ++ inQuotes r.target

def titleLine : Option String → List String
  | none => []
  | some title => if title = "" then [] else ["title " ++ title]

def lines (documents : List Document) (title : Option String) : List String :=
  "@startuml" :: titleLine title ++ (documents.flatMap Document.types).flatMap entity ++
    (uniqueRelationships documents).map relationship ++ ["@enduml"]

def render (documents : List Document) (title : Option String) : String :=
  "\n".intercalate (lines documents title) ++ "\n"

end PlantUml

end ClassDiagram
