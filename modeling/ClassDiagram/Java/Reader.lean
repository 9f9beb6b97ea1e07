import ClassDiagram.Java.Token

/-!
The means by which Java source is read: a reader takes tokens from the front of a stream, and gives pieces
of a tree. A comment becomes a child of the innermost node that has a token on both sides of it: the
comments before the first token of a piece are kept beside it until it is put into a larger one.
-/

namespace ClassDiagram.Java

structure Piece where
  gap : String := ""
  comments : List Node := []
  node : Node

namespace Piece

instance : Inhabited Piece := ⟨{ node := default }⟩

def leaf (kind : Kind) (named : Bool) (t : Token) : Piece :=
  { gap := t.gap, comments := t.comments, node := { kind, named, text := t.text } }

def inRole (role : Role) (p : Piece) : Piece := { p with node := { p.node with role := some role } }

def group (kind : Kind) : List Piece → Piece
  | [] => { node := { kind } }
  | p :: ps =>
      { gap := p.gap
        comments := p.comments
        node :=
          { kind
            text := p.node.text ++ String.join (ps.map fun q => q.gap ++ q.node.text)
            children := p.node :: ps.flatMap fun q => q.comments ++ [q.node] } }

def sealed (kind : Kind) (tokens : List Token) : Piece :=
  let p := group kind (tokens.map (leaf kind false))
  { p with node := { p.node with children := [] } }

end Piece

structure Stream where
  tokens : List Token
  flawed : Bool := false
  missing : Nat := 0

abbrev Reader := StateT Stream Option

namespace Reader

def ahead (places : Nat) : Reader String := do
  match (← get).tokens[places]? with
  | none => pure ""
  | some t => pure t.text

def wordAhead (places : Nat) : Reader Bool := do
  match (← get).tokens[places]? with
  | none => pure false
  | some t => pure t.isWord

def joined (places : Nat) : Reader Bool := do
  match (← get).tokens[places]? with
  | none => pure false
  | some t => pure (t.gap = "")

def atEnd : Reader Bool := do pure (← get).tokens.isEmpty

def token : Reader Token := do
  match (← get).tokens with
  | [] => failure
  | t :: rest =>
      modify fun s => { s with tokens := rest }
      pure t

def flaw : Reader Unit := modify fun s => { s with flawed := true }

def missing (marks : Nat) : Reader Unit :=
  modify fun s => { s with flawed := true, missing := s.missing + marks }

def mark (text : String) : Reader Piece := do
  let t ← token
  if t.text = text then pure (.leaf (Kind.ofName text) false t) else failure

def expected (text : String) : Reader (List Piece) := do
  if (← ahead 0) = text then pure [← mark text]
  else
    if ← atEnd then missing 1 else flaw
    pure []

def word (kind : Kind) : Reader Piece := do
  let t ← token
  if t.isWord then pure (.leaf kind true t) else failure

def atMostOnce (r : Reader Piece) : Reader (List Piece) := (do pure [← r]) <|> pure []

def many (r : Reader Piece) : Nat → Reader (List Piece)
  | 0 => pure []
  | turns + 1 => (do
      let p ← r
      let ps ← many r turns
      pure (p :: ps)) <|> pure []

def listOf (r : Reader Piece) (turns : Nat) : Reader (List Piece) := do
  let p ← r
  let pairs ← manyPairs turns
  pure (p :: pairs)
where
  manyPairs : Nat → Reader (List Piece)
    | 0 => pure []
    | turns + 1 => (do
        let comma ← mark ","
        let p ← r
        let ps ← manyPairs turns
        pure (comma :: p :: ps)) <|> pure []

def budget : Reader Nat := do pure (← get).tokens.length

end Reader

inductive Bracket where
  | opening
  | closing
  | none
  deriving DecidableEq, Repr

def Token.bracket (t : Token) : Bracket :=
  if t.text = "(" || t.text = "[" || t.text = "\x7b" then .opening
  else if t.text = ")" || t.text = "]" || t.text = "\x7d" then .closing
  else .none

def closeBrackets : Nat → List Token → Option (List Token × List Token)
  | _, [] => none
  | depth, t :: ts =>
      match t.bracket, depth with
      | .closing, 0 => none
      | .closing, 1 => some ([t], ts)
      | .closing, d + 1 => (closeBrackets d ts).map fun r => (t :: r.1, r.2)
      | .opening, d => (closeBrackets (d + 1) ts).map fun r => (t :: r.1, r.2)
      | .none, d => (closeBrackets d ts).map fun r => (t :: r.1, r.2)

-- How many of the brackets opened in some tokens are still open after them, `depth` being open before.
def openBrackets (depth : Nat) (tokens : List Token) : Nat :=
  tokens.foldl (fun d t => match t.bracket with
    | .opening => d + 1
    | .closing => d - 1
    | .none => d) depth

def Reader.bracketed (kind : Kind) (opening : String) : Reader Piece := do
  let t ← Reader.token
  if t.text ≠ opening then failure
  let rest := (← get).tokens
  match closeBrackets 1 rest with
  | some (inside, after) =>
      modify fun s => { s with tokens := after }
      pure (Piece.sealed kind (t :: inside))
  | none =>
      modify fun s => { s with tokens := [] }
      Reader.missing (openBrackets 1 rest)
      pure (Piece.sealed kind (t :: rest))

-- The tokens of type arguments after their opening bracket, up to the bracket that closes the last of
-- `depth`; there are none when a token stands among them that type arguments do not hold.
def closeAngles : Nat → List Token → Option (List Token × List Token)
  | _, [] => none
  | depth, t :: ts =>
      let further := fun d => (closeAngles d ts).map fun r => (t :: r.1, r.2)
      if t.text = ">" then if depth ≤ 1 then some ([t], ts) else further (depth - 1)
      else if t.text = "<" then further (depth + 1)
      else if t.isWord || [".", ",", "?", "&", "@", "[", "]"].contains t.text then further depth
      else none

-- The tokens of an initialiser, up to the comma or semicolon that ends it. Brackets are taken whole, and
-- so are type arguments, in which a comma ends nothing.
def initializerTokens : Nat → List Token → List Token × List Token
  | 0, ts => ([], ts)
  | _, [] => ([], [])
  | turns + 1, t :: ts =>
      if t.text = "," || t.text = ";" || t.bracket = .closing then ([], t :: ts)
      else
        let inside := match t.bracket with
          | .opening => closeBrackets 1 ts
          | _ => if t.text = "<" then closeAngles 1 ts else none
        match inside with
        | some (taken, rest) =>
            let (more, after) := initializerTokens turns rest
            (t :: taken ++ more, after)
        | none =>
            let (more, after) := initializerTokens turns ts
            (t :: more, after)

def statementTokens : Nat → List Token → Option (List Token)
  | 0, _ => none
  | _, [] => none
  | turns + 1, t :: ts =>
      if t.text = ";" then some ts
      else match t.bracket with
        | .opening =>
            match closeBrackets 1 ts with
            | none => none
            | some (_, rest) => if t.text = "\x7b" then some rest else statementTokens turns rest
        | .closing => none
        | .none => statementTokens turns ts

end ClassDiagram.Java
