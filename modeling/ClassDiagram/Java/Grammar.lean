import ClassDiagram.Java.Reader

/-!
The grammar of Java declarations. Headers, types and the signatures of members are read in full; the
insides of methods, initialisers and annotations are sealed. A word that the grammar does not ask for at
its place is taken as a name.
-/

namespace ClassDiagram.Java.Grammar

open Reader

def modifierWords : List String :=
  ["public", "protected", "private", "abstract", "static", "final", "strictfp", "default",
    "synchronized", "native", "transient", "volatile", "sealed"]

def primitiveKind? : String → Option Kind
  | "byte" | "short" | "int" | "long" | "char" => some .integralType
  | "float" | "double" => some .floatingPointType
  | "boolean" => some .booleanType
  | "void" => some .voidType
  | _ => none

-- A name of one or more words with dots between. A dot right before a semicolon stays in the name as a
-- flaw; before anything else it makes the name unreadable.
def qualifiedName : Reader Piece := do
  let start ← word .identifier
  extend (← budget) start
where
  extend : Nat → Piece → Reader Piece
    | 0, p => pure p
    | turns + 1, p => do
        if (← ahead 0) = "." && (← wordAhead 1) then
          let dot ← mark "."
          let segment ← word .identifier
          extend turns (.group .scopedIdentifier [p, dot, segment])
        else if (← ahead 0) = "." && (← ahead 1) = ";" then
          let dot ← mark "."
          flaw
          pure (.group .scopedIdentifier [p, dot])
        else if (← ahead 0) = "." && (← ahead 1) ≠ "*" then failure
        else pure p

def atAnnotType : Reader Bool := do
  pure ((← ahead 0) = "@" && (← ahead 1) = "interface" && (← joined 1))

def annot : Reader Piece := do
  if ← atAnnotType then failure
  let sign ← mark "@"
  let name ← qualifiedName
  if (← ahead 0) = "(" then
    let arguments ← bracketed (.other "annotation_argument_list") "("
    pure (.group .annot [sign, name, arguments])
  else pure (.group .markerAnnot [sign, name])

def annots : Reader (List Piece) := do many annot (← budget)

def modifier : Reader Piece := annot <|> do
  if (← ahead 0) = "non" && (← ahead 1) = "-" && (← ahead 2) = "sealed" && (← joined 1) && (← joined 2) then
    let first ← token
    let _ ← token
    let _ ← token
    pure (.leaf (.other "non-sealed") false { first with text := "non-sealed" })
  else
    let t ← token
    if modifierWords.contains t.text then pure (.leaf (Kind.ofName t.text) false t) else failure

def modifierList : Reader (List Piece) := do
  match ← many modifier (← budget) with
  | [] => pure []
  | ms => pure [.group .modifiers ms]

def dimensions : Reader (List Piece) := do
  match ← brackets (← budget) with
  | [] => pure []
  | ps => pure [.group .dimensions ps]
where
  brackets : Nat → Reader (List Piece)
    | 0 => pure []
    | turns + 1 => (do
        let before ← annots
        let opening ← mark "["
        let closing ← mark "]"
        let rest ← brackets turns
        pure (before ++ opening :: closing :: rest)) <|> pure []

mutual

def simpleType : Nat → Reader Piece
  | 0 => failure
  | fuel + 1 => do
      let t ← token
      match primitiveKind? t.text with
      | some kind => pure (.leaf kind true t)
      | none =>
          if t.isWord then typeTail fuel false (.leaf .typeIdentifier true t) else failure

def typeTail : Nat → Bool → Piece → Reader Piece
  | 0, _, p => pure p
  | fuel + 1, generic, p => do
      if !generic && (← ahead 0) = "<" then
        let arguments ← typeArguments fuel
        typeTail fuel true (.group .genericType [p, arguments])
      else if (← ahead 0) = "." && ((← wordAhead 1) || (← ahead 1) = "@") then
        let dot ← mark "."
        let before ← annots
        let segment ← word .typeIdentifier
        typeTail fuel false (.group .scopedTypeIdentifier (p :: dot :: before ++ [segment]))
      else pure p

def plainType : Nat → Reader Piece
  | 0 => failure
  | fuel + 1 => do
      let element ← simpleType fuel
      match ← dimensions with
      | [] => pure element
      | dims => pure (.group .arrayType (element.inRole .element :: dims.map (·.inRole .dimensions)))

def type : Nat → Reader Piece
  | 0 => failure
  | fuel + 1 => do
      match ← annots with
      | [] => plainType fuel
      | before =>
          let p ← plainType fuel
          pure (.group .annotatedType (before ++ [p]))

def typeArgument : Nat → Reader Piece
  | 0 => failure
  | fuel + 1 => wildcard fuel <|> type fuel

def wildcard : Nat → Reader Piece
  | 0 => failure
  | fuel + 1 => do
      let before ← annots
      let sign ← mark "?"
      let bound ← match ← ahead 0 with
        | "extends" => do pure [← mark "extends", ← type fuel]
        | "super" => do pure [← word .superWord, ← type fuel]
        | _ => pure []
      pure (.group .wildcard (before ++ sign :: bound))

-- Type arguments in their brackets. Where the name of what is declared follows, the closing bracket is
-- missing.
def typeArguments : Nat → Reader Piece
  | 0 => failure
  | fuel + 1 => do
      let opening ← mark "<"
      let arguments ← if (← ahead 0) = ">" then pure [] else moreArguments fuel
      let named := (← wordAhead 0) && ([";", "=", ","].contains (← ahead 1))
      let closing ← if named then expected ">" else pure [← mark ">"]
      pure (.group .typeArguments (opening :: arguments ++ closing))

def moreArguments : Nat → Reader (List Piece)
  | 0 => failure
  | fuel + 1 => do
      let p ← typeArgument fuel
      if (← ahead 0) = "," then
        let comma ← mark ","
        pure (p :: comma :: (← moreArguments fuel))
      else pure [p]

end

def depthBound : Reader Nat := do pure (4 * (← budget) + 4)

def aType : Reader Piece := do type (← depthBound)

def aPlainType : Reader Piece := do plainType (← depthBound)

def typeList : Reader Piece := do
  pure (.group .typeList (← listOf aType (← budget)))

def typeParameter : Reader Piece := do
  let before ← annots
  let name ← word .typeIdentifier
  let bound ← atMostOnce do
    let extends_ ← mark "extends"
    let first ← aType
    let more ← furtherBounds (← budget)
    pure (.group (.other "type_bound") (extends_ :: first :: more))
  pure (.group .typeParameter (before ++ name :: bound))
where
  furtherBounds : Nat → Reader (List Piece)
    | 0 => pure []
    | turns + 1 => do
        if (← ahead 0) = "&" then
          let sign ← mark "&"
          let bound ← aType
          pure (sign :: bound :: (← furtherBounds turns))
        else pure []

def typeParameters : Reader Piece := do
  let opening ← mark "<"
  let parameters ← listOf typeParameter (← budget)
  let closing ← mark ">"
  pure ((Piece.group .typeParameters (opening :: parameters ++ [closing])).inRole .typeParameters)

def someTypeParameters : Reader (List Piece) := do
  if (← ahead 0) = "<" then pure [← typeParameters] else pure []

def declaredName : Reader Piece := do pure ((← word .identifier).inRole .name)

def dimensionsInRole : Reader (List Piece) := do
  pure ((← dimensions).map (·.inRole .dimensions))

def receiverParameter : Reader Piece := do
  let type ← aPlainType
  let path ← outerNames (← budget)
  let this ← mark "this"
  pure (.group (.other "receiver_parameter") (type :: path ++ [this]))
where
  outerNames : Nat → Reader (List Piece)
    | 0 => pure []
    | turns + 1 => do
        if (← wordAhead 0) && (← ahead 1) = "." then
          let name ← word .identifier
          let dot ← mark "."
          pure (name :: dot :: (← outerNames turns))
        else pure []

def formalParameter : Reader Piece := do
  let before ← modifierList
  let type ← aPlainType
  let name ← declaredName
  let dims ← dimensionsInRole
  pure (.group .formalParameter (before ++ type.inRole .type :: name :: dims))

def spreadParameter : Reader Piece := do
  let before ← modifierList
  let type ← aPlainType
  let sign ← mark "..."
  let inside ← annots
  let name ← declaredName
  let dims ← dimensionsInRole
  let variable_ := Piece.group .variableDeclarator (name :: dims)
  pure (.group .spreadParameter (before ++ type :: sign :: inside ++ [variable_]))

-- A parameter with the comma or the end of the list right after it; a brace shows that the bracket of
-- the list is missing.
def parameter : Reader Piece := do
  let p ← receiverParameter <|> spreadParameter <|> formalParameter
  if [",", ")", "\x7b"].contains (← ahead 0) then pure p else failure

-- Parameters with commas between. What cannot be read as a parameter is dropped, up to the comma or the
-- bracket after it.
def parameters : Nat → Reader (List Piece)
  | 0 => failure
  | turns + 1 => do
      let p ← atMostOnce parameter
      if p.isEmpty then
        flaw
        let ts := (← get).tokens
        modify fun s => { s with tokens := (initializerTokens ts.length ts).2 }
      if (← ahead 0) = "," then
        let comma ← mark ","
        pure (p ++ comma :: (← parameters turns))
      else pure p

def formalParameters : Reader Piece := do
  let opening ← mark "("
  let inside ← if (← ahead 0) = ")" then pure [] else parameters (← budget)
  let closing ← if (← ahead 0) = "\x7b" then expected ")" else pure [← mark ")"]
  pure ((Piece.group .formalParameters (opening :: inside ++ closing)).inRole .parameters)

-- A clause of a header: a word and the types it introduces. A clause that names no type is dropped.
def clause (introducer : String) (kind : Kind) (types : Reader Piece) : Reader (List Piece) := do
  if (← ahead 0) = introducer then
    (do
      let start ← mark introducer
      let listed ← types
      pure [Piece.group kind [start, listed]]) <|> do
      let _ ← mark introducer
      flaw
      pure []
  else pure []

def throwsClause : Reader (List Piece) := clause "throws" (.other "throws") typeList

def variableDeclarator : Reader Piece := do
  let name ← declaredName
  let dims ← dimensionsInRole
  let value ←
    if (← ahead 0) = "=" then do
      let sign ← mark "="
      let ts := (← get).tokens
      let (taken, rest) := initializerTokens ts.length ts
      modify fun s => { s with tokens := rest }
      if taken.isEmpty then
        flaw
        pure [sign]
      else pure [sign, (Piece.sealed (.other "expression") taken).inRole .value]
    else pure []
  pure ((Piece.group .variableDeclarator (name :: dims ++ value)).inRole .declarator)

def fieldRest (kind : Kind) (before : List Piece) : Reader Piece := do
  let type ← aPlainType
  let declarators ← listOf variableDeclarator (← budget)
  let closing ← expected ";"
  pure (.group kind (before ++ type.inRole .type :: declarators ++ closing))

def methodBody (kind : Kind) : Reader (List Piece) := do
  if (← ahead 0) = "\x7b" then pure [(← bracketed kind "\x7b").inRole .body] else expected ";"

def methodRest (before : List Piece) : Reader Piece := do
  let type ← aPlainType
  let name ← declaredName
  let parameters ← formalParameters
  let dims ← dimensionsInRole
  let thrown ← throwsClause
  let body ← methodBody .block
  pure (.group .methodDecl
    (before ++ type.inRole .type :: name :: parameters :: dims ++ thrown ++ body))

def constructorRest (before : List Piece) : Reader Piece := do
  let name ← declaredName
  let parameters ← formalParameters
  let thrown ← throwsClause
  let body ← methodBody .constructorBody
  pure (.group .constructorDecl (before ++ name :: parameters :: thrown ++ body))

def compactConstructorRest (before : List Piece) : Reader Piece := do
  let name ← declaredName
  let body ← bracketed .block "\x7b"
  pure (.group (.other "compact_constructor_declaration") (before ++ [name, body.inRole .body]))

def annotTypeRest (before : List Piece) : Reader Piece := do
  let sign ← mark "@"
  let introducer ← mark "interface"
  let name ← declaredName
  let body ← bracketed (.other "annotation_type_body") "\x7b"
  pure (.group (.other "annotation_type_declaration")
    (before ++ [sign, introducer, name, body.inRole .body]))

def enumConstant : Reader Piece := do
  let before ← modifierList
  let name ← declaredName
  let arguments ←
    if (← ahead 0) = "(" then
      pure [(← bracketed (.other "argument_list") "(").inRole .arguments]
    else pure []
  let body ←
    if (← ahead 0) = "\x7b" then pure [(← bracketed (.other "class_body") "\x7b").inRole .body]
    else pure []
  pure (.group .enumConstant (before ++ name :: arguments ++ body))

def strayMarks : List String := ["#", "\x60", "\\"]

def dropStatement : Reader Unit := do
  flaw
  let ts := (← get).tokens
  if strayMarks.contains (← ahead 0) then
    modify fun s => { s with tokens := s.tokens.drop 1 }
  else match statementTokens ts.length ts with
  | some rest => modify fun s => { s with tokens := rest }
  | none =>
      modify fun s => { s with tokens := s.tokens.drop 1 }
      if ← atEnd then missing 1

def dropToBody : Reader Unit := do
  if (← ahead 0) ≠ "\x7b" then
    let rest := (← get).tokens.dropWhile fun t => t.bracket = .none && t.text ≠ ";"
    flaw
    modify fun s => { s with tokens := rest }

mutual

def typeRest : Nat → List Piece → Reader Piece
  | 0, _ => failure
  | fuel + 1, before => do
      if ← atAnnotType then annotTypeRest before
      else
        match ← ahead 0 with
        | "class" => do
            let introducer ← mark "class"
            let name ← declaredName
            let parameters ← someTypeParameters <|> pure []
            let above ← clause "extends" .superclass aType
            let realized ← clause "implements" .superInterfaces typeList
            let permitted ← clause "permits" (.other "permits") typeList
            let body ← typeBody fuel false
            pure (.group .classDecl
              (before ++ introducer :: name :: parameters ++ above ++ realized ++ permitted ++ body))
        | "interface" => do
            let introducer ← mark "interface"
            let name ← declaredName
            let parameters ← someTypeParameters <|> pure []
            let above ← clause "extends" .extendsInterfaces typeList
            let permitted ← clause "permits" (.other "permits") typeList
            let body ← typeBody fuel true
            pure (.group .interfaceDecl
              (before ++ introducer :: name :: parameters ++ above ++ permitted ++ body))
        | "enum" => do
            let introducer ← mark "enum"
            let name ← declaredName
            let realized ← clause "implements" .superInterfaces typeList
            let body ← enumBody fuel
            pure (.group .enumDecl (before ++ introducer :: name :: realized ++ body))
        | "record" => do
            let introducer ← mark "record"
            let name ← declaredName
            let parameters ← someTypeParameters
            let components ← formalParameters
            let realized ← clause "implements" .superInterfaces typeList
            let body ← typeBody fuel false
            pure (.group .recordDecl
              (before ++ introducer :: name :: parameters ++ components :: realized ++ body))
        | _ => failure

def typeBody : Nat → Bool → Reader (List Piece)
  | 0, _ => failure
  | fuel + 1, inInterface => do
      dropToBody
      let opening ← mark "\x7b"
      let inside ← members fuel inInterface
      let closing ← expected "\x7d"
      let kind := if inInterface then "interface_body" else "class_body"
      pure [(Piece.group (.other kind) (opening :: inside ++ closing)).inRole .body]

def enumBody : Nat → Reader (List Piece)
  | 0 => failure
  | fuel + 1 => do
      dropToBody
      let opening ← mark "\x7b"
      let constants ← listOf enumConstant (← budget) <|> pure []
      let comma ← atMostOnce (mark ",")
      let further ←
        if (← ahead 0) = ";" then do
          let sign ← mark ";"
          let inside ← members fuel false
          pure [Piece.group .enumBodyDecls (sign :: inside)]
        else pure []
      let closing ← expected "\x7d"
      pure [(Piece.group (.other "enum_body")
        (opening :: constants ++ comma ++ further ++ closing)).inRole .body]

def members : Nat → Bool → Reader (List Piece)
  | 0, _ => pure []
  | fuel + 1, inInterface => do
      let next ← ahead 0
      if (← atEnd) || next = "\x7d" then pure []
      else
        (do
          let p ← member fuel inInterface
          pure (p :: (← members fuel inInterface))) <|> do
          dropStatement
          members fuel inInterface

def member : Nat → Bool → Reader Piece
  | 0, _ => failure
  | fuel + 1, inInterface => do
      let next ← ahead 0
      if next = ";" then mark ";"
      else if next = "\x7b" then bracketed .block "\x7b"
      else if next = "static" && (← ahead 1) = "\x7b" then do
        let introducer ← mark "static"
        let body ← bracketed .block "\x7b"
        pure (.group .staticInitializer [introducer, body])
      else do
        let before ← modifierList
        typeRest fuel before <|> do
          let parameters ← someTypeParameters
          let annotated ← if parameters.isEmpty then pure [] else annots
          let front := before ++ parameters ++ annotated
          if (← wordAhead 0) && (← ahead 1) = "(" && !inInterface then constructorRest front
          else if (← wordAhead 0) && (← ahead 1) = "\x7b" && parameters.isEmpty then
            compactConstructorRest front
          else
            methodRest front <|>
              fieldRest (if inInterface then .constantDecl else .fieldDecl) front

end

-- A package declaration. With two annotations or more before it and a name of one segment it reads as
-- the declaration of a variable of a type called `package`.
def packageDecl : Reader Piece := do
  let before ← annots
  let introducer ← mark "package"
  let name ← qualifiedName
  if 2 ≤ before.length && name.node.kind = .identifier then failure
  let closing ← expected ";"
  pure (.group .packageDecl (before ++ introducer :: name :: closing))

def importDecl : Reader Piece := do
  let introducer ← mark "import"
  let static_ ← atMostOnce (mark "static")
  let name ← qualifiedName
  let star ←
    if (← ahead 0) = "." && (← ahead 1) = "*" then do
      let dot ← mark "."
      let sign ← token
      pure [dot, .leaf .asterisk true sign]
    else pure []
  let closing ← expected ";"
  pure (.group .importDecl (introducer :: static_ ++ name :: star ++ closing))

def moduleDecl : Reader Piece := do
  let before ← annots
  let open_ ← if (← ahead 0) = "open" then pure [← mark "open"] else pure []
  let introducer ← mark "module"
  let name ← qualifiedName
  let body ← bracketed (.other "module_body") "\x7b"
  pure (.group (.other "module_declaration")
    (before ++ open_ ++ [introducer, name, body.inRole .body]))

def topType : Reader Piece := do
  let before ← modifierList
  typeRest (← depthBound) before

def statement : Reader Piece := do
  let ts := (← get).tokens
  match ts, statementTokens ts.length ts with
  | [], _ => failure
  | _, some rest =>
      modify fun s => { s with tokens := rest }
      pure (.sealed (.other "statement") (ts.take (ts.length - rest.length)))
  | _, none => failure

-- What stands at the top of a source. One mark that is missing at the end of the source is supplied; a
-- declaration that lacks more than one cannot be read, and all of it is dropped.
def topPart : Reader (List Piece) := do
  let p ← packageDecl <|> importDecl <|> moduleDecl <|> topType
  if (← get).missing ≤ 1 then pure [p] else pure []

def parts : Nat → Reader (List Piece)
  | 0 => pure []
  | turns + 1 => do
      if ← atEnd then pure []
      else
        (do
          let p ← topPart
          pure (p ++ (← parts turns))) <|> do
          let next ← ahead 0
          if ("import" :: "package" :: strayMarks).contains next then
            dropStatement
            parts turns
          else
            (do
              let p ← statement
              pure (p :: (← parts turns))) <|> do
              dropStatement
              parts turns

end Grammar

def parse (source : List Char) : Node × Bool :=
  let tokens := Token.scan source
  match (Grammar.parts (tokens.length + 1)).run { tokens } with
  | none => ({ kind := .program }, true)
  | some (ps, s) => ((Piece.group .program ps).node, s.flawed)

end ClassDiagram.Java
