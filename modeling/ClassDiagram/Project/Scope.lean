import ClassDiagram.FileSystem.Resolve
import ClassDiagram.Ignore.Rule
import ClassDiagram.Language
import ClassDiagram.Settings.Basic
import ClassDiagram.Text.Utf8
import ClassDiagram.Java.TypeNode

/-!
The part of a directory that belongs to a project. A scope has a root, rules for what is ignored below it,
and the paths that are wanted. A scan walks through directories, leaves out the ones that are ignored, and
gives the files that are wanted and in a known language.
-/

namespace ClassDiagram

inductive ProjectError where
  | badRule (e : Ignore.RuleError)
  | linkCircle (e : LinkCircle)
  | outside (path root : String)
  | badTree (e : Java.TreeError)
  deriving DecidableEq, Repr

def ProjectError.message : ProjectError → String
  | .badRule e => e.message
  | .linkCircle e => e.message
  | .outside path root =>
      s!"{Text.quoted path} is not in the subpath of {Text.quoted root}" ++
        " OR one path is relative and the other is absolute."
  | .badTree e => e.message

def defaultExcludes : List String :=
  [".git/", ".gradle/", ".idea/", "node_modules/", "build/", "out/", "target/"]

def ignoreFileName : String := ".gitignore"

def ignorePatterns (bytes : List UInt8) : List String :=
  (Text.nonblankLines (Text.Utf8.dropMark (Text.Utf8.decode bytes))).filter fun line =>
    line.toList.head? ≠ some '#'

def wantedPath (path : String) : String :=
  let slashes := path.toList.map fun c => if c = '\\' then '/' else c
  String.ofList (slashes.reverse.dropWhile (· = '/')).reverse

structure Scope where
  root : Path
  rules : List Ignore.Rule
  wanted : List String
  deriving DecidableEq, Repr

namespace Scope

def ownPatterns (fs : FileSystem) (root : Path) : Option (List String) :=
  let file := root.join (Path.ofString ignoreFileName)
  if fs.isFile file then (fs.read file).toOption.map ignorePatterns else none

def ofRoot (fs : FileSystem) (directory : Path) (options : ScanOptions) :
    Except ProjectError (Scope × Log) := do
  let root ← (fs.resolve directory).mapError .linkCircle
  let own := ownPatterns fs root
  let log := match own with
    | some patterns => [.patternsLoaded patterns.length (root.join (Path.ofString ignoreFileName)).toString]
    | none => []
  let lines := defaultExcludes ++ own.getD [] ++ options.excludePatterns
  let rules ← (Ignore.rulesOf lines).mapError .badRule
  pure ({ root, rules, wanted := options.includePaths.map wantedPath }, log)

def ignores (s : Scope) (path : String) : Bool := Ignore.ignored s.rules path

def wants (s : Scope) (path : String) : Bool :=
  s.wanted.isEmpty || s.wanted.any fun p => path = p || (p ++ "/").toList.isPrefixOf path.toList

def includes (s : Scope) (path : String) : Bool := !s.ignores path && s.wants path

end Scope

def below (directory name : String) : String :=
  if directory = "" then name else directory ++ "/" ++ name

mutual

-- The files among the entries of a directory and below them. `skips` says which directories are left
-- out, and `toDirectory` which links lead to directories; these are not followed.
def filesAmong (skips : String → Bool) (toDirectory : Place → Bool) (here : Place) (directory : String) :
    List (String × Entry) → List String
  | [] => []
  | (name, e) :: rest =>
      filesAt skips toDirectory (here ++ [name]) (below directory name) e ++
        filesAmong skips toDirectory here directory rest

def filesAt (skips : String → Bool) (toDirectory : Place → Bool) (here : Place) (path : String) :
    Entry → List String
  | .file _ => [path]
  | .link _ => if toDirectory here then [] else [path]
  | .dir entries =>
      if skips (path ++ "/") then [] else filesAmong skips toDirectory here path entries

end

def sortPaths (paths : List String) : List String := paths.mergeSort fun a b => decide (a ≤ b)

namespace Scope

def yields (s : Scope) (r : Registry) (path : String) : Bool :=
  s.includes path && (r.forFile? path).isSome

def scan (s : Scope) (fs : FileSystem) (r : Registry) (start : Path) :
    Except ProjectError (List String) :=
  let top := s.root.join start
  match fs.locate top with
  | .ok (place, .dir entries) =>
      match top.relativeTo? s.root with
      | none => .error (.outside top.toString s.root.toString)
      | some way =>
          let directory := if way.parts = [] then "" else way.toString
          let toDirectory place := fs.isDirectory (FileSystem.pathOf place)
          .ok (sortPaths ((filesAmong s.ignores toDirectory place directory entries).filter (s.yields r)))
  | _ => .ok []

end Scope

end ClassDiagram
