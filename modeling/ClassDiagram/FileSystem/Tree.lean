import ClassDiagram.FileSystem.Path
import ClassDiagram.Text.Quoted

/-!
A tree of files, links and directories, with a directory to start relative paths from. A place in the tree
is named by the directories on the way from the root; a path leads to a place, through links and through
`..`, or it fails for one of a few reasons.
-/

namespace ClassDiagram

inductive Entry where
  | file (bytes : List UInt8)
  | link (target : String)
  | dir (entries : List (String × Entry))
  deriving Repr

abbrev Place := List String

inductive PathFault where
  | missing
  | notDirectory
  | isDirectory
  | tooManyLinks
  deriving DecidableEq, Repr

def PathFault.reason : PathFault → String
  | .missing => "[Errno 2] No such file or directory"
  | .notDirectory => "[Errno 20] Not a directory"
  | .isDirectory => "[Errno 21] Is a directory"
  | .tooManyLinks => "[Errno 40] Too many levels of symbolic links"

def PathFault.message (f : PathFault) (path : String) : String := s!"{f.reason}: {Text.quoted path}"

namespace Entry

def at? : Entry → Place → Option Entry
  | e, [] => some e
  | .dir entries, name :: rest =>
      match entries.lookup name with
      | some e => e.at? rest
      | none => none
  | _, _ :: _ => none
termination_by structural _ place => place

def set (name : String) (e : Entry) : List (String × Entry) → List (String × Entry)
  | [] => [(name, e)]
  | (n, old) :: rest => if n = name then (name, e) :: rest else (n, old) :: set name e rest

def put : Entry → Place → Entry → Entry
  | _, [], new => new
  | e, name :: rest, new =>
      let entries := match e with
        | .dir entries => entries
        | _ => []
      .dir (set name (((entries.lookup name).getD (.dir [])).put rest new) entries)
termination_by structural _ place => place

def isDir : Entry → Bool
  | .dir _ => true
  | _ => false

end Entry

structure FileSystem where
  tree : Entry := .dir []
  current : Place := []
  deriving Repr

inductive Destination where
  | found (place : Place) (entry : Entry)
  | free (place : Place)
  deriving Repr

namespace FileSystem

def maxLinks : Nat := 40

def startOf (here : Place) (p : Path) : Place := if p.isAbsolute then [] else here

def follow (fs : FileSystem) (links : Nat) (here : Place) (todo : List String) :
    Except PathFault Destination :=
  match fs.tree.at? here, todo with
  | none, _ => .error .missing
  | some e, [] => .ok (.found here e)
  | some (.dir entries), name :: rest =>
      if name = ".." then fs.follow links here.dropLast rest
      else match entries.lookup name with
        | none => if rest = [] then .ok (.free (here ++ [name])) else .error .missing
        | some (.link target) =>
            match links with
            | 0 => .error .tooManyLinks
            | links + 1 =>
                let p := Path.ofString target
                fs.follow links (startOf here p) (p.parts ++ rest)
        | some _ => fs.follow links (here ++ [name]) rest
  | some _, _ :: _ => .error .notDirectory
termination_by (links, todo.length)

def destination (fs : FileSystem) (p : Path) : Except PathFault Destination :=
  fs.follow maxLinks (startOf fs.current p) p.parts

def locate (fs : FileSystem) (p : Path) : Except PathFault (Place × Entry) := do
  match ← fs.destination p with
  | .found place e => pure (place, e)
  | .free _ => .error .missing

def isDirectory (fs : FileSystem) (p : Path) : Bool :=
  match fs.locate p with
  | .ok (_, .dir _) => true
  | _ => false

def isFile (fs : FileSystem) (p : Path) : Bool :=
  match fs.locate p with
  | .ok (_, .file _) => true
  | _ => false

def read (fs : FileSystem) (p : Path) : Except PathFault (List UInt8) := do
  match ← fs.locate p with
  | (_, .file bytes) => pure bytes
  | _ => .error .isDirectory

def write (fs : FileSystem) (p : Path) (bytes : List UInt8) : Except PathFault (Place × FileSystem) := do
  match ← fs.destination p with
  | .found _ (.dir _) => .error .isDirectory
  | .found place _ | .free place => pure (place, { fs with tree := fs.tree.put place (.file bytes) })

def pathOf (place : Place) : Path := { root := "/", parts := place }

end FileSystem

end ClassDiagram
