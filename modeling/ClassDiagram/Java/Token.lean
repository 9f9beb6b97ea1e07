import ClassDiagram.Java.Tree

/-!
Java source cut into tokens. A token keeps the white space and the comments that stand before it, so the
tokens of a source, written one after another, give it back up to what follows the last of them.
Characters beyond ASCII are letters.
-/

namespace ClassDiagram.Java

structure Token where
  gap : String := ""
  comments : List Node := []
  text : String
  deriving Repr

namespace Token

def isSpace (c : Char) : Bool := c = ' ' || (9 ≤ c.toNat && c.toNat ≤ 13)

def isWordStart (c : Char) : Bool :=
  c.isAlpha || c = '_' || c = '$' || 128 ≤ c.toNat

def isWordPart (c : Char) : Bool := isWordStart c || c.isDigit

def isWord (t : Token) : Bool :=
  match t.text.toList with
  | [] => false
  | c :: _ => isWordStart c

def blockComment : List Char → List Char × List Char
  | [] => ([], [])
  | '*' :: '/' :: cs => (['*', '/'], cs)
  | c :: cs =>
      let (inside, rest) := blockComment cs
      (c :: inside, rest)

inductive Quotation where
  | string
  | textBlock
  | character
  | code (depth : Nat)
  deriving DecidableEq, Repr

def Quotation.advance : Quotation → List Char → List Quotation × Nat
  | .code depth, '{' :: _ => ([.code (depth + 1)], 0)
  | .code 0, '}' :: _ => ([], 0)
  | .code (depth + 1), '}' :: _ => ([.code depth], 0)
  | .code depth, '"' :: '"' :: '"' :: _ => ([.textBlock, .code depth], 2)
  | .code depth, '"' :: _ => ([.string, .code depth], 0)
  | .code depth, '\'' :: _ => ([.character, .code depth], 0)
  | .code depth, _ => ([.code depth], 0)
  | inner, '\\' :: '{' :: _ => ([.code 0, inner], 1)
  | inner, '\\' :: _ :: _ => ([inner], 1)
  | .textBlock, '"' :: '"' :: '"' :: _ => ([], 2)
  | .string, '"' :: _ => ([], 0)
  | .character, '\'' :: _ => ([], 0)
  | inner, _ => ([inner], 0)

-- The characters up to where all open quotations are closed, in reverse before `taken`, and those after;
-- the next `skip` characters belong to a sign that was read already.
def quotation : Nat → List Quotation → List Char → List Char → List Char × List Char
  | skip + 1, opened, taken, c :: cs => quotation skip opened (c :: taken) cs
  | 0, inner :: outer, taken, c :: cs =>
      let (opened, more) := inner.advance (c :: cs)
      quotation more (opened ++ outer) (c :: taken) cs
  | _, _, taken, cs => (taken, cs)

def isNumberPart (c : Char) : Bool := isWordPart c || c = '.'

def first : List Char → List Char × List Char
  | '"' :: '"' :: '"' :: cs =>
      let (taken, rest) := quotation 0 [.textBlock] ['"', '"', '"'] cs
      (taken.reverse, rest)
  | '"' :: cs =>
      let (taken, rest) := quotation 0 [.string] ['"'] cs
      (taken.reverse, rest)
  | '\'' :: cs =>
      let (taken, rest) := quotation 0 [.character] ['\''] cs
      (taken.reverse, rest)
  | '.' :: '.' :: '.' :: cs => (['.', '.', '.'], cs)
  | ':' :: ':' :: cs => ([':', ':'], cs)
  | '-' :: '>' :: cs => (['-', '>'], cs)
  | '.' :: d :: cs =>
      if d.isDigit then ('.' :: (d :: cs).takeWhile isNumberPart, (d :: cs).dropWhile isNumberPart)
      else (['.'], d :: cs)
  | c :: cs =>
      if isWordStart c then (c :: cs.takeWhile isWordPart, cs.dropWhile isWordPart)
      else if c.isDigit then (c :: cs.takeWhile isNumberPart, cs.dropWhile isNumberPart)
      else ([c], cs)
  | [] => ([], [])

-- The tokens of a text, given what already stands before the next of them, in reverse. Every turn takes
-- at least one character, so a turn for each character is enough.
def scanFrom : Nat → List Char → List Node → List Char → List Token
  | 0, _, _, _ => []
  | _, _, _, [] => []
  | turns + 1, gap, comments, '/' :: '/' :: cs =>
      let text := '/' :: '/' :: cs.takeWhile (· ≠ '\n')
      let comment : Node := { kind := .lineComment, text := String.ofList text }
      scanFrom turns (text.reverse ++ gap) (comment :: comments) (cs.dropWhile (· ≠ '\n'))
  | turns + 1, gap, comments, '/' :: '*' :: cs =>
      let (inside, rest) := blockComment cs
      let text := '/' :: '*' :: inside
      let comment : Node := { kind := .blockComment, text := String.ofList text }
      scanFrom turns (text.reverse ++ gap) (comment :: comments) rest
  | turns + 1, gap, comments, c :: cs =>
      if isSpace c then scanFrom turns (c :: gap) comments cs
      else
        let (text, rest) := first (c :: cs)
        { gap := String.ofList gap.reverse, comments := comments.reverse,
          text := String.ofList text } :: scanFrom turns [] [] rest

def scan (source : List Char) : List Token :=
  let cs := match source with
    | '\uFEFF' :: cs => cs
    | cs => cs
  scanFrom cs.length [] [] cs

end Token

end ClassDiagram.Java
