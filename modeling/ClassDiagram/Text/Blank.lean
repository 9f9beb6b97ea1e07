import ClassDiagram.Text.Split

/-!
Blank characters (the Unicode white space property, with the information separators), the words
between them, and the characters that end a line.
-/

namespace ClassDiagram.Text

def inRanges (ranges : List (Nat × Nat)) (c : Char) : Bool :=
  ranges.any fun r => r.1 ≤ c.toNat && c.toNat ≤ r.2

def blankRanges : List (Nat × Nat) :=
  [(9, 13), (28, 32), (133, 133), (160, 160), (5760, 5760), (8192, 8202), (8232, 8233),
    (8239, 8239), (8287, 8287), (12288, 12288)]

def isBlank (c : Char) : Bool := inRanges blankRanges c

def lineEndRanges : List (Nat × Nat) :=
  [(10, 13), (28, 30), (133, 133), (8232, 8233)]

def isLineEnd (c : Char) : Bool := inRanges lineEndRanges c

def trimLeft (cs : List Char) : List Char := cs.dropWhile isBlank

def trimRight (cs : List Char) : List Char := (cs.reverse.dropWhile isBlank).reverse

def trim (cs : List Char) : List Char := trimRight (trimLeft cs)

def words (cs : List Char) : List (List Char) :=
  (splitAtEach isBlank cs).filter (· ≠ [])

def singleSpaced (s : String) : String :=
  " ".intercalate ((words s.toList).map String.ofList)

def nonblankLines (s : String) : List String :=
  ((splitAtEach isLineEnd s.toList).map trim).filter (· ≠ []) |>.map String.ofList

end ClassDiagram.Text
