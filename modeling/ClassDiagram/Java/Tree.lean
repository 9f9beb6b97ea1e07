/-!
Concrete trees of Java source. A node has a kind, the role it plays in its parent, the text it covers and
its children; a named node stands for a construct of the grammar, the others for its fixed words and
marks. Nothing here supposes that a tree follows the grammar.
-/

namespace ClassDiagram.Java

inductive Kind where
  | program
  | packageDecl
  | importDecl
  | classDecl
  | interfaceDecl
  | enumDecl
  | recordDecl
  | fieldDecl
  | constantDecl
  | methodDecl
  | constructorDecl
  | enumConstant
  | enumBodyDecls
  | modifiers
  | markerAnnot
  | annot
  | typeIdentifier
  | scopedTypeIdentifier
  | genericType
  | arrayType
  | annotatedType
  | integralType
  | floatingPointType
  | booleanType
  | voidType
  | wildcard
  | typeArguments
  | typeParameters
  | typeParameter
  | typeList
  | superclass
  | superInterfaces
  | extendsInterfaces
  | formalParameters
  | formalParameter
  | spreadParameter
  | variableDeclarator
  | dimensions
  | identifier
  | scopedIdentifier
  | asterisk
  | staticWord
  | extendsWord
  | superWord
  | block
  | constructorBody
  | staticInitializer
  | lineComment
  | blockComment
  | other (name : String)
  deriving DecidableEq, Repr

namespace Kind

def names : List (String × Kind) :=
  [("program", .program), ("package_declaration", .packageDecl),
    ("import_declaration", .importDecl), ("class_declaration", .classDecl),
    ("interface_declaration", .interfaceDecl), ("enum_declaration", .enumDecl),
    ("record_declaration", .recordDecl), ("field_declaration", .fieldDecl),
    ("constant_declaration", .constantDecl), ("method_declaration", .methodDecl),
    ("constructor_declaration", .constructorDecl), ("enum_constant", .enumConstant),
    ("enum_body_declarations", .enumBodyDecls), ("modifiers", .modifiers),
    ("marker_annotation", .markerAnnot), ("annotation", .annot),
    ("type_identifier", .typeIdentifier), ("scoped_type_identifier", .scopedTypeIdentifier),
    ("generic_type", .genericType), ("array_type", .arrayType),
    ("annotated_type", .annotatedType), ("integral_type", .integralType),
    ("floating_point_type", .floatingPointType), ("boolean_type", .booleanType),
    ("void_type", .voidType), ("wildcard", .wildcard), ("type_arguments", .typeArguments),
    ("type_parameters", .typeParameters), ("type_parameter", .typeParameter),
    ("type_list", .typeList), ("superclass", .superclass), ("super_interfaces", .superInterfaces),
    ("extends_interfaces", .extendsInterfaces), ("formal_parameters", .formalParameters),
    ("formal_parameter", .formalParameter), ("spread_parameter", .spreadParameter),
    ("variable_declarator", .variableDeclarator), ("dimensions", .dimensions),
    ("identifier", .identifier), ("scoped_identifier", .scopedIdentifier),
    ("asterisk", .asterisk), ("static", .staticWord), ("extends", .extendsWord),
    ("super", .superWord), ("block", .block), ("constructor_body", .constructorBody),
    ("static_initializer", .staticInitializer), ("line_comment", .lineComment),
    ("block_comment", .blockComment)]

def ofName (name : String) : Kind := (names.lookup name).getD (.other name)

def name (kind : Kind) : String :=
  match kind, names.find? fun entry => entry.2 = kind with
  | .other word, _ => word
  | _, some entry => entry.1
  | _, none => ""

def isAnnot (k : Kind) : Bool := k = .markerAnnot || k = .annot

def isType : Kind → Bool
  | .typeIdentifier | .scopedTypeIdentifier | .genericType | .arrayType | .annotatedType
  | .integralType | .floatingPointType | .booleanType | .voidType | .wildcard => true
  | _ => false

def isName (k : Kind) : Bool := k = .identifier || k = .scopedIdentifier

end Kind

inductive Role where
  | name
  | type
  | body
  | declarator
  | dimensions
  | element
  | parameters
  | typeParameters
  | value
  | arguments
  | other (name : String)
  deriving DecidableEq, Repr

namespace Role

def ofName : String → Role
  | "name" => .name
  | "type" => .type
  | "body" => .body
  | "declarator" => .declarator
  | "dimensions" => .dimensions
  | "element" => .element
  | "parameters" => .parameters
  | "type_parameters" => .typeParameters
  | "value" => .value
  | "arguments" => .arguments
  | word => .other word

end Role

structure Node where
  kind : Kind
  named : Bool := true
  role : Option Role := none
  text : String := ""
  children : List Node := []
  deriving Repr

namespace Node

instance : Inhabited Node := ⟨{ kind := .program }⟩

def namedChildren (n : Node) : List Node := n.children.filter (·.named)

def child? (n : Node) (role : Role) : Option Node := n.children.find? (·.role = some role)

def childrenIn (n : Node) (role : Role) : List Node := n.children.filter (·.role = some role)

end Node

end ClassDiagram.Java
