import ClassDiagram.FileSystem.Tree

/-!
Paths made absolute and free of links. Names that do not exist are kept as they are, so every path can be
resolved, unless it runs into links that lead in a circle.
-/

namespace ClassDiagram

namespace Entry

mutual

def linkCount : Entry → Nat
  | .file _ => 0
  | .link _ => 1
  | .dir entries => linkCounts entries

def linkCounts : List (String × Entry) → Nat
  | [] => 0
  | (_, e) :: rest => linkCount e + linkCounts rest

end

end Entry

structure LinkCircle where
  path : String
  deriving DecidableEq, Repr

def LinkCircle.message (e : LinkCircle) : String := s!"Symlink loop from {Text.quoted e.path}"

namespace FileSystem

def collapse (place : Place) (todo : List String) : Place :=
  todo.foldl (fun here name => if name = ".." then here.dropLast else here ++ [name]) place

-- Replaces links by what they lead to. `active` are the links that are being replaced: meeting one of
-- them again ends the resolution, with the rest of the names unchanged. No more links can be active than
-- there are, which `depth` counts down.
def unlink (fs : FileSystem) (depth : Nat) (active : List Place) (here : Place) (todo : List String) :
    Place × Bool :=
  match todo with
  | [] => (here, true)
  | name :: rest =>
      if name = ".." then fs.unlink depth active here.dropLast rest
      else
        let next := here ++ [name]
        match fs.tree.at? next with
        | some (.link target) =>
            match depth with
            | 0 => (collapse next rest, false)
            | depth' + 1 =>
                if next ∈ active then (collapse next rest, false)
                else
                  let p := Path.ofString target
                  match fs.unlink depth' (next :: active) (startOf here p) p.parts with
                  | (place, true) => fs.unlink (depth' + 1) active place rest
                  | (place, false) => (collapse place rest, false)
        | _ => fs.unlink depth active next rest
termination_by (depth, todo.length)

def resolve (fs : FileSystem) (p : Path) : Except LinkCircle Path :=
  let place := (fs.unlink (fs.tree.linkCount + 1) [] (startOf fs.current p) p.parts).1
  match fs.locate (pathOf place) with
  | .error .tooManyLinks => .error ⟨(pathOf place).toString⟩
  | _ => .ok (pathOf place)

end FileSystem

end ClassDiagram
