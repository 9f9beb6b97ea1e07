/-!
Cutting a list of characters at separators. Every cut keeps the characters that are not separators,
in order; the pieces around the last separator are what a dotted name is taken apart with.
-/

namespace ClassDiagram.Text

def splitAtEach (p : Char → Bool) : List Char → List (List Char)
  | [] => [[]]
  | c :: cs =>
      if p c then [] :: splitAtEach p cs
      else match splitAtEach p cs with
        | [] => [[c]]
        | piece :: pieces => (c :: piece) :: pieces

theorem splitAtEach_ne_nil (p : Char → Bool) (cs : List Char) : splitAtEach p cs ≠ [] := by
  cases cs with
  | nil => simp [splitAtEach]
  | cons c cs =>
      rw [splitAtEach]
      split
      · simp
      · split <;> simp

def afterLast (sep : Char) (cs : List Char) : List Char :=
  (cs.reverse.takeWhile (· ≠ sep)).reverse

def beforeLast (sep : Char) (cs : List Char) : List Char :=
  match (cs.reverse.dropWhile (· ≠ sep)) with
  | [] => cs
  | _ :: front => front.reverse

def lastSegment (name : String) : String := String.ofList (afterLast '.' name.toList)

def enclosingSegments (name : String) : String := String.ofList (beforeLast '.' name.toList)

def isDotted (name : String) : Bool := name.toList.contains '.'

end ClassDiagram.Text
