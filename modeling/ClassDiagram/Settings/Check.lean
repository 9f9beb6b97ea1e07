import ClassDiagram.Diagram.Options
import ClassDiagram.FileSystem.Path
import ClassDiagram.Settings.Fault
import ClassDiagram.Settings.Value
import ClassDiagram.Text.Blank

/-!
Values checked to be what a setting needs. A check gives the setting or all that is wrong with the value.
Numbers and truth values may also be given as texts, as they are in environment variables.
-/

namespace ClassDiagram

abbrev Checked := Except (List Fault)

namespace Checked

variable {α : Type}

def faults : Checked α → List Fault
  | .ok _ => []
  | .error fs => fs

def fail (kind : FaultKind) : Checked α := .error [⟨[], kind⟩]

def under (step : LocationStep) : Checked α → Checked α
  | .ok a => .ok a
  | .error fs => .error (fs.map (Fault.under step))

def both {β : Type} : Checked α → Checked β → Checked (α × β)
  | .ok a, .ok b => .ok (a, b)
  | a, b => .error (a.faults ++ b.faults)

def items (check : Value → Checked α) : Nat → List Value → Checked (List α)
  | _, [] => .ok []
  | i, v :: vs =>
      (both ((check v).under (.index i)) (items check (i + 1) vs)).map fun (a, as) => a :: as

end Checked

namespace Check

open Checked (fail)

def isSpace (c : Char) : Bool := Text.isBlank c && !(28 ≤ c.toNat && c.toNat ≤ 31)

def trimSpace (cs : List Char) : List Char :=
  ((cs.dropWhile isSpace).reverse.dropWhile isSpace).reverse

-- A text without zeros in front of a number, and without underscores among them. One zero is kept when
-- nothing but zeros comes before a point or the end.
def dropZeros : List Char → Option (List Char)
  | '0' :: cs =>
      let lead := cs.takeWhile fun c => c = '0' || c = '_'
      match cs.dropWhile fun c => c = '0' || c = '_' with
      | [] => some [('0' :: lead).getLast?.getD '0']
      | '.' :: rest => some (('0' :: lead).getLast?.getD '0' :: '.' :: rest)
      | c :: rest => if c.isDigit then some (c :: rest) else none
  | c :: cs => if c.isDigit || c = '-' then some (c :: cs) else none
  | [] => none

def dropPoint (cs : List Char) : List Char :=
  match cs.dropWhile (· ≠ '.') with
  | '.' :: zeros => if zeros.all (· = '0') then cs.takeWhile (· ≠ '.') else cs
  | _ => cs

def hasTwoUnderscores : List Char → Bool
  | '_' :: '_' :: _ => true
  | _ :: cs => hasTwoUnderscores cs
  | [] => false

def dropUnderscores (cs : List Char) : List Char :=
  if cs.head? = some '_' || cs.getLast? = some '_' || hasTwoUnderscores cs then cs
  else cs.filter (· ≠ '_')

def plainNumber? : List Char → Option Nat
  | ['0'] => some 0
  | c :: cs =>
      if c ≠ '0' && (c :: cs).all Char.isDigit then
        some ((c :: cs).foldl (fun n d => 10 * n + (d.toNat - 48)) 0)
      else none
  | [] => none

def dropPlus : List Char → Option (List Char)
  | '+' :: '-' :: _ => none
  | '+' :: cs => some cs
  | cs => some cs

def intOfText? (s : String) : Option Int := do
  let cs ← dropPlus (trimSpace s.toList)
  let cs := dropUnderscores (dropPoint (← dropZeros cs))
  match cs with
  | '-' :: ds => (plainNumber? ds).map fun n => -(n : Int)
  | ds => (plainNumber? ds).map fun n => (n : Int)

def maxNumberText : Nat := 4300

def maxWhole : Int := 9223372036854775808

def int : Value → Checked Int
  | .bool b => .ok (if b then 1 else 0)
  | .int n => .ok n
  | .float .notFinite => fail .finiteNumber
  | .float .fractional => fail .intFromFloat
  | .float (.whole n) => if -maxWhole < n && n < maxWhole then .ok n else fail .intParsingSize
  | .text s =>
      if maxNumberText < (trimSpace s.toList).length then fail .intParsingSize
      else match intOfText? s with
        | some n => .ok n
        | none => fail .intParsing
  | _ => fail .intType

def boolOfText? (s : String) : Option Bool :=
  let word := String.ofList (s.toList.map Char.toLower)
  if word ∈ ["true", "t", "yes", "y", "on", "1"] then some true
  else if word ∈ ["false", "f", "no", "n", "off", "0"] then some false
  else none

def boolOfInt (n : Int) : Checked Bool :=
  if n = 0 then .ok false else if n = 1 then .ok true else fail .boolParsing

def bool : Value → Checked Bool
  | .bool b => .ok b
  | .int n => boolOfInt n
  | .float (.whole n) => if -maxWhole < n && n < maxWhole then boolOfInt n else fail .boolType
  | .text s => match boolOfText? s with
    | some b => .ok b
    | none => fail .boolParsing
  | _ => fail .boolType

def text : Value → Checked String
  | .text s => .ok s
  | _ => fail .stringType

def texts : Value → Checked (List String)
  | .list vs => Checked.items text 0 vs
  | _ => fail .listType

def path : Value → Checked Path
  | .text s => .ok (Path.ofString s)
  | _ => fail .pathType

def visibility : Value → Checked Visibility
  | .text s => match Vocabulary.find? Visibility s with
    | some v => .ok v
    | none => fail .visibility
  | _ => fail .visibility

def visibilities : Value → Checked (List Visibility)
  | .list vs => (Checked.items visibility 0 vs).map fun given => Vocabulary.members.filter (· ∈ given)
  | _ => fail .setType

def setting {α : Type} (t : Table) (name : String) (otherwise : α) (check : Value → Checked α) :
    Checked α :=
  match t.lookup name with
  | some v => (check v).under (.name name)
  | none => .ok otherwise

def unknownNames (known : List String) (t : Table) : List Fault :=
  (t.filter fun e => e.1 ∉ known).map fun e => ⟨[.name e.1], .unknownName⟩

def withFaults {α : Type} (fs : List Fault) : Checked α → Checked α
  | .ok a => if fs = [] then .ok a else .error fs
  | .error gs => .error (gs ++ fs)

end Check

end ClassDiagram
