import ClassDiagram.Settings.Json

/-!
Strings, keys, comments and blanks of TOML documents. A string in apostrophes is taken as it is, and a
string in quotes has escapes; either may run over several lines when it is opened by three marks.
-/

namespace ClassDiagram.Toml

abbrev Reader (α : Type) := List Char → Option (α × List Char)

def isBlank (c : Char) : Bool := c = ' ' || c = '\t'

def isBlankOrLineEnd (c : Char) : Bool := isBlank c || c = '\n'

def skipBlanks (cs : List Char) : List Char := cs.dropWhile isBlank

def isIllegal (c : Char) : Bool := (c < ' ' && c ≠ '\t') || c = '\x7f'

def isIllegalInLines (c : Char) : Bool := isIllegal c && c ≠ '\n'

def skipComment (cs : List Char) : Option (List Char) :=
  match cs with
  | '#' :: rest =>
      if (rest.takeWhile (· ≠ '\n')).any isIllegal then none else some (rest.dropWhile (· ≠ '\n'))
  | _ => some cs

def skipLines : Nat → List Char → Option (List Char)
  | 0, cs => some cs
  | fuel + 1, cs =>
      let rest := cs.dropWhile isBlankOrLineEnd
      match rest with
      | '#' :: _ => (skipComment rest).bind (skipLines fuel)
      | _ => some rest

def hexChar (count : Nat) : Reader Char := fun cs => do
  let ds := cs.take count
  if ds.length ≠ count then none
  let n ← Json.hexNumber? ds
  if 0x10FFFF < n || Json.isHighSurrogate n || Json.isLowSurrogate n then none
  pure (Char.ofNat n, cs.drop count)

def simpleEscape? : Char → Option Char
  | '"' => some '"'
  | '\\' => some '\\'
  | 'b' => some '\x08'
  | 'f' => some '\x0c'
  | 'n' => some '\n'
  | 'r' => some '\r'
  | 't' => some '\t'
  | _ => none

-- What an escape stands for, read after its backslash. In a text of several lines an escaped line end
-- stands for nothing, together with the blanks around it.
def escape (lines : Bool) : Reader (List Char)
  | [] => none
  | 'u' :: rest => (hexChar 4 rest).map fun (c, rest) => ([c], rest)
  | 'U' :: rest => (hexChar 8 rest).map fun (c, rest) => ([c], rest)
  | c :: rest =>
      if lines && isBlankOrLineEnd c then
        match skipBlanks (c :: rest) with
        | '\n' :: rest => some ([], rest.dropWhile isBlankOrLineEnd)
        | _ => none
      else (simpleEscape? c).map fun e => ([e], rest)

def quotedBody (lines : Bool) : Nat → Reader (List Char)
  | 0, _ => none
  | _ + 1, [] => none
  | fuel + 1, '"' :: rest =>
      match lines, rest with
      | false, rest => some ([], rest)
      | true, '"' :: '"' :: rest => some ([], rest)
      | true, rest => (quotedBody lines fuel rest).map fun (cs, rest) => ('"' :: cs, rest)
  | fuel + 1, '\\' :: rest => do
      let (e, rest) ← escape lines rest
      let (cs, rest) ← quotedBody lines fuel rest
      pure (e ++ cs, rest)
  | fuel + 1, c :: rest => do
      if (if lines then isIllegalInLines c else isIllegal c) then none
      let (cs, rest) ← quotedBody lines fuel rest
      pure (c :: cs, rest)

def literalBody : Reader (List Char) := fun cs =>
  let body := cs.takeWhile (· ≠ '\'')
  match cs.dropWhile (· ≠ '\'') with
  | [] => none
  | _ :: rest => if body.any isIllegal then none else some (body, rest)

def literalLines : Reader (List Char)
  | [] => none
  | '\'' :: '\'' :: '\'' :: rest => some ([], rest)
  | c :: rest =>
      if isIllegalInLines c then none
      else (literalLines rest).map fun (cs, rest) => (c :: cs, rest)

def extraMarks (mark : Char) (body : List Char) : List Char → List Char × List Char
  | a :: b :: rest =>
      if a = mark then if b = mark then (body ++ [mark, mark], rest) else (body ++ [mark], b :: rest)
      else (body, a :: b :: rest)
  | [a] => if a = mark then (body ++ [mark], []) else (body, [a])
  | [] => (body, [])

def dropLineEnd : List Char → List Char
  | '\n' :: rest => rest
  | cs => cs

def lineString : Reader String
  | '"' :: rest => (quotedBody false (rest.length + 1) rest).map fun (cs, rest) => (String.ofList cs, rest)
  | '\'' :: rest => (literalBody rest).map fun (cs, rest) => (String.ofList cs, rest)
  | _ => none

def string : Reader String
  | '"' :: '"' :: '"' :: rest => do
      let (body, rest) ← quotedBody true (rest.length + 1) (dropLineEnd rest)
      let (cs, rest) := extraMarks '"' body rest
      pure (String.ofList cs, rest)
  | '\'' :: '\'' :: '\'' :: rest => do
      let (body, rest) ← literalLines (dropLineEnd rest)
      let (cs, rest) := extraMarks '\'' body rest
      pure (String.ofList cs, rest)
  | cs => lineString cs

def isBare (c : Char) : Bool :=
  ('a' ≤ c && c ≤ 'z') || ('A' ≤ c && c ≤ 'Z') || ('0' ≤ c && c ≤ '9') || c = '-' || c = '_'

def keyPart : Reader String := fun cs =>
  match cs.takeWhile isBare with
  | [] => lineString cs
  | name => some (String.ofList name, cs.dropWhile isBare)

def keyRest : Nat → Reader (List String)
  | 0, _ => none
  | fuel + 1, cs =>
      match skipBlanks cs with
      | '.' :: rest => do
          let (name, rest) ← keyPart (skipBlanks rest)
          let (names, rest) ← keyRest fuel rest
          pure (name :: names, rest)
      | rest => some ([], rest)

def key : Reader (List String) := fun cs => do
  let (name, rest) ← keyPart cs
  let (names, rest) ← keyRest (rest.length + 1) rest
  pure (name :: names, rest)

end ClassDiagram.Toml
