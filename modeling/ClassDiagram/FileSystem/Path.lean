import ClassDiagram.Text.Split
import ClassDiagram.Text.LowerCase

/-!
Paths of files: a root, which is absent in a relative path, and the names on the way. Empty names and the
name `.` are dropped when a path is read, and `..` is kept as a name.
-/

namespace ClassDiagram

structure Path where
  root : String := ""
  parts : List String := []
  deriving DecidableEq, Repr

namespace Path

def partsOf (text : String) : List String :=
  ((Text.splitAtEach (· = '/') text.toList).map String.ofList).filter fun p => p ≠ "" && p ≠ "."

def rootOf (text : String) : String :=
  match text.toList with
  | '/' :: '/' :: '/' :: _ => "/"
  | '/' :: '/' :: _ => "//"
  | '/' :: _ => "/"
  | _ => ""

def ofString (text : String) : Path := { root := rootOf text, parts := partsOf text }

def toString (p : Path) : String :=
  if p.root = "" && p.parts.isEmpty then "." else p.root ++ "/".intercalate p.parts

instance : ToString Path := ⟨toString⟩

def isAbsolute (p : Path) : Bool := p.root ≠ ""

def join (p q : Path) : Path :=
  if q.isAbsolute then q else { p with parts := p.parts ++ q.parts }

def name (p : Path) : String := p.parts.getLast?.getD ""

def parent (p : Path) : Path := { p with parts := p.parts.dropLast }

def suffixOf (name : String) : String :=
  let cs := name.toList
  let stem := Text.beforeLast '.' cs
  let ending := Text.afterLast '.' cs
  if cs.contains '.' && stem ≠ [] && ending ≠ [] then String.ofList ('.' :: ending) else ""

def suffix (p : Path) : String := suffixOf p.name

def isUnder (p base : Path) : Bool := p.root = base.root && base.parts.isPrefixOf p.parts

def relativeTo? (p base : Path) : Option Path :=
  if p.isUnder base then some { parts := p.parts.drop base.parts.length } else none

end Path

end ClassDiagram
