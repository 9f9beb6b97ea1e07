import ClassDiagram.Vocabulary

/-!
What a run reports: events, each with the level at which it is reported and the words it is reported in.
-/

namespace ClassDiagram

inductive Level where
  | debug
  | info
  | warning
  | error
  deriving DecidableEq, Repr

namespace Level

def rank : Level → Nat
  | .debug => 0
  | .info => 1
  | .warning => 2
  | .error => 3

def label : Level → String
  | .debug => "DEBUG"
  | .info => "INFO"
  | .warning => "WARNING"
  | .error => "ERROR"

end Level

inductive Event where
  | patternsLoaded (count : Nat) (path : String)
  | alreadyCollected (path : String)
  | noSuchPath (path : String)
  | unsupported (path : String)
  | unreadable (path reason : String)
  | syntaxErrors (path : String)
  | parsed (path : String) (types : Nat)
  | built (kind : EntityKind) (name : String)
  | pluginFailed (name : String)
  | finished (documents files skipped : Nat)
  | nothingFound (paths : List String)
  | wrote (path : String)
  deriving DecidableEq, Repr

namespace Event

def level : Event → Level
  | .patternsLoaded .. | .alreadyCollected _ | .unsupported _ | .parsed .. | .built .. => .debug
  | .finished .. | .wrote _ => .info
  | .noSuchPath _ | .unreadable .. | .syntaxErrors _ | .pluginFailed _ => .warning
  | .nothingFound _ => .error

def message : Event → String
  | .patternsLoaded count path => s!"Loaded {count} patterns from {path}"
  | .alreadyCollected path => s!"Skipping {path}: already collected"
  | .noSuchPath path => s!"Skipping {path}: no such file or directory"
  | .unsupported path => s!"Skipping {path}: unsupported language"
  | .unreadable path reason => s!"Cannot read {path}: {reason}"
  | .syntaxErrors path => s!"Syntax errors in {path}; diagram may be incomplete"
  | .parsed path types => s!"Parsed {path}: {types} top-level type(s)"
  | .built kind name => s!"Built {wordOf kind} {name}"
  | .pluginFailed name => s!"Failed to load language plugin {Text.quoted name}"
  | .finished documents files skipped =>
      s!"Built {documents} document(s) from {files} file(s) in 0.00s ({skipped} skipped)"
  | .nothingFound paths => "No Java sources found under " ++ ", ".intercalate paths
  | .wrote path => s!"Wrote {path}"

end Event

abbrev Log := List Event

def Log.atLeast (level : Level) (log : Log) : Log :=
  log.filter fun e => level.rank ≤ e.level.rank

end ClassDiagram
