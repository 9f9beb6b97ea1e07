import ClassDiagram.Ignore.Glob
import ClassDiagram.Text.Blank
import ClassDiagram.Text.Quoted

/-!
Ignore rules, read from lines. A rule ignores the paths that its pattern fits, or it keeps them when its
line begins with an exclamation mark. Of several rules that fit a path, the last one decides.
-/

namespace ClassDiagram.Ignore

structure Rule where
  ignores : Bool
  pieces : List Piece
  deriving DecidableEq, Repr

inductive RuleError where
  | invalid (line : String)
  | reversedRange (low high : Char)
  deriving DecidableEq, Repr

def RuleError.message : RuleError → String
  | .invalid line => s!"Invalid git pattern: {Text.quoted line}"
  | .reversedRange low high => s!"bad character range {low}-{high}"

def slashAnywhere : List Piece := [.run .any, .one (.only '/')]

def anything : List Piece := [.run .any, .one .inLine]

inductive Segment where
  | deep
  | name
  | text (cs : List Char)
  deriving DecidableEq, Repr

def Segment.ofChars : List Char → Segment
  | ['*', '*'] => .deep
  | ['*'] => .name
  | cs => .text cs

-- The segments with their place made explicit: a pattern that starts with a slash is taken from the
-- root, and a pattern of one name fits at any depth.
def placed : List Segment → List Segment
  | .text [] :: rest => rest
  | [s] => if s = .deep then [s] else [.deep, s]
  | [s, .text []] => if s = .deep then [s, .text []] else [.deep, s, .text []]
  | segments => segments

def withContents (segments : List Segment) : List Segment :=
  if segments.getLast? = some (.text []) then segments.dropLast ++ [.deep] else segments

def mergeDeep : List Segment → List Segment
  | .deep :: .deep :: rest => mergeDeep (.deep :: rest)
  | s :: rest => s :: mergeDeep rest
  | [] => []

def segmentsOf (cs : List Char) : List Segment :=
  mergeDeep (withContents (placed ((Text.splitAtEach (· = '/') cs).map Segment.ofChars)))

def Segment.pieces : Segment → Except GlobFault (List Piece)
  | .deep => .ok []
  | .name => .ok wholeName
  | .text cs => glob cs

-- How a pattern ends after its last segment: any name stands for itself only, and other names also for
-- what is below them.
def Segment.ending : Segment → List Piece
  | .name => [.optionalSlashEnd]
  | _ => [.slashOrEnd]

-- The pieces of segments that do not come first; `slash` says whether a slash stands before the next
-- name.
def laterPieces (slash : Bool) : List Segment → Except GlobFault (List Piece)
  | [] => .ok []
  | [.deep] => .ok [.one (.only '/')]
  | .deep :: rest => do pure (.between :: (← laterPieces true rest))
  | s :: rest => do
      let own ← s.pieces
      let ending := if rest.isEmpty then s.ending else []
      pure ((if slash then [.one (.only '/')] else []) ++ own ++ ending ++ (← laterPieces true rest))

def patternPieces : List Segment → Except GlobFault (List Piece)
  | .deep :: rest => do pure (.ancestors :: (← laterPieces false rest))
  | segments => laterPieces false segments

def piecesOf (isDirectory : Bool) : List Segment → Except GlobFault (List Piece)
  | [.deep] => .ok (if isDirectory then slashAnywhere else anything)
  | [.deep, .name] => .ok anything
  | [.deep, .name, .deep] => .ok slashAnywhere
  | segments => patternPieces segments

def withoutTrailingBlanks (cs : List Char) : List Char :=
  match cs.reverse with
  | ' ' :: '\\' :: _ => cs
  | _ => Text.trimRight cs

def isDirectoryPattern (cs : List Char) : Bool := cs.getLast? = some '/' && cs ≠ ['/']

def ruleOf (line : String) (ignores : Bool) (cs : List Char) : Except RuleError Rule :=
  if cs = [] then .error (.invalid line)
  else match piecesOf (isDirectoryPattern cs) (segmentsOf cs) with
    | .ok pieces => .ok { ignores, pieces }
    | .error .unfinishedEscape => .error (.invalid line)
    | .error (.reversedRange low high) => .error (.reversedRange low high)

def Rule.ofLine (line : String) : Except RuleError (Option Rule) :=
  match withoutTrailingBlanks line.toList with
  | [] => .ok none
  | '#' :: _ => .ok none
  | '!' :: cs => (ruleOf line false cs).map some
  | cs => (ruleOf line true cs).map some

def rulesOf (lines : List String) : Except RuleError (List Rule) := do
  let rules ← lines.mapM Rule.ofLine
  pure (rules.filterMap id)

def fromRoot : List Char → List Char
  | '/' :: cs => cs
  | '.' :: '/' :: cs => cs
  | cs => cs

def ignored (rules : List Rule) (path : String) : Bool :=
  match rules.reverse.find? fun r => fits r.pieces (fromRoot path.toList) with
  | some r => r.ignores
  | none => false

end ClassDiagram.Ignore
