import ClassDiagram.Text.Blank

/-!
Decimal digits of all scripts, and whole numbers written with them.
-/

namespace ClassDiagram.Text

def zeroPoints : List Nat :=
  [48, 1632, 1776, 1984, 2406, 2534, 2662, 2790, 2918, 3046, 3174, 3302, 3430, 3558, 3664, 3792, 3872,
    4160, 4240, 6112, 6160, 6470, 6608, 6784, 6800, 6992, 7088, 7232, 7248, 42528, 43216, 43264, 43472,
    43504, 43600, 44016, 65296, 66720, 68912, 69734, 69872, 69942, 70096, 70384, 70736, 70864, 71248,
    71360, 71472, 71904, 72016, 72784, 73040, 73120, 92768, 92864, 93008, 120782, 120792, 120802, 120812,
    120822, 123200, 123632, 125264, 130032]

def digit? (c : Char) : Option Nat :=
  (zeroPoints.find? fun z => z ≤ c.toNat && c.toNat < z + 10).map (c.toNat - ·)

def digitsFrom : Nat → List Char → Option Nat
  | n, [] => some n
  | n, [c] => (digit? c).map (10 * n + ·)
  | n, '_' :: c :: cs => match digit? c with
    | some d => digitsFrom (10 * n + d) cs
    | none => none
  | n, c :: cs => match digit? c with
    | some d => digitsFrom (10 * n + d) cs
    | none => none

def natural? (cs : List Char) : Option Nat :=
  match cs with
  | [] => none
  | c :: _ => if c = '_' then none else digitsFrom 0 cs

def integer? (s : String) : Option Int :=
  match trim s.toList with
  | '-' :: cs => (natural? cs).map fun n => -(n : Int)
  | '+' :: cs => (natural? cs).map fun n => (n : Int)
  | cs => (natural? cs).map fun n => (n : Int)

example : integer? " -1_000 " = some (-1000) := by decide +kernel
example : integer? "1__0" = none := by decide +kernel
example : integer? "٣" = some 3 := by decide +kernel

end ClassDiagram.Text
