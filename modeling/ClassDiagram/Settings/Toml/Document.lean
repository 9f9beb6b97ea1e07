import ClassDiagram.Settings.Toml.Number

/-!
TOML documents read as tables. A document is a row of statements: an entry, the header of a table, or the
header of a new table in a list. No statement may change what an earlier one has settled: a value, a table
with a header of its own, or anything in a list or a table that was written in one piece.
-/

namespace ClassDiagram.Toml

abbrev Key := List String

-- Changes the table behind a key, which is made if it is not there. With `lists`, a list stands for the
-- last table in it.
def within (lists : Bool) (change : Table → Option Table) : Key → Table → Option Table
  | [], t => change t
  | name :: names, t =>
      match t.lookup name with
      | none => (within lists change names []).map fun inner => t.set name (.table inner)
      | some (.table inner) =>
          (within lists change names inner).map fun inner => t.set name (.table inner)
      | some (.list items) =>
          match lists, items.getLast? with
          | true, some (.table inner) =>
              (within lists change names inner).map fun inner =>
                t.set name (.list (items.dropLast ++ [.table inner]))
          | _, _ => none
      | some _ => none

def addNew (name : String) (v : Value) (t : Table) : Option Table :=
  match t.lookup name with
  | none => some (t ++ [(name, v)])
  | some _ => none

def insert (lists : Bool) (k : Key) (v : Value) (t : Table) : Option Table :=
  match k.getLast? with
  | none => none
  | some name => within lists (addNew name v) k.dropLast t

def isFrozen (frozen : List Key) (k : Key) : Bool := frozen.any (·.isPrefixOf k)

def isCompound : Value → Bool
  | .list _ | .table _ => true
  | _ => false

def wordValues : List (String × Value) :=
  [("true", .bool true), ("false", .bool false), ("inf", .float .notFinite), ("nan", .float .notFinite),
    ("+inf", .float .notFinite), ("-inf", .float .notFinite), ("+nan", .float .notFinite),
    ("-nan", .float .notFinite)]

def scalar : Reader Value := fun cs =>
  match wordValues.findSome? fun (w, v) => (Json.word w cs).map (v, ·) with
  | some found => some found
  | none => numeral cs

mutual

def value : Nat → Reader Value
  | 0, _ => none
  | fuel + 1, cs =>
      match cs with
      | '"' :: _ | '\'' :: _ => (string cs).map fun (s, rest) => (.text s, rest)
      | '[' :: rest => (items fuel rest).map fun (vs, rest) => (.list vs, rest)
      | '{' :: rest =>
          match skipBlanks rest with
          | '}' :: rest => some (.table [], rest)
          | rest => (entries fuel [] [] rest).map fun (t, rest) => (.table t, rest)
      | _ => scalar cs

def items : Nat → Reader (List Value)
  | 0, _ => none
  | fuel + 1, cs => do
      match ← skipLines cs.length cs with
      | ']' :: rest => pure ([], rest)
      | rest =>
          let (v, rest) ← value fuel rest
          match ← skipLines rest.length rest with
          | ']' :: rest => pure ([v], rest)
          | ',' :: rest =>
              let (vs, rest) ← items fuel rest
              pure (v :: vs, rest)
          | _ => none

def entries : Nat → List Key → Table → Reader Table
  | 0, _, _, _ => none
  | fuel + 1, frozen, t, cs => do
      let (k, rest) ← key cs
      let (v, rest) ← value fuel (skipBlanks (← expect '=' rest))
      if isFrozen frozen k then none
      let t ← insert false k v t
      match skipBlanks rest with
      | '}' :: rest => pure (t, rest)
      | ',' :: rest => entries fuel (if isCompound v then k :: frozen else frozen) t (skipBlanks rest)
      | _ => none

end

-- A document as far as it is read: what it holds, the key of the table that entries go to, the keys that
-- may not change, the keys that may have no header any more, and those of them that still may until the
-- next header.
structure Document where
  table : Table := []
  header : Key := []
  frozen : List Key := []
  closed : List Key := []
  pending : List Key := []

namespace Document

def onTheWay (header : Key) : Key → List Key
  | [] | [_] => []
  | name :: names => (header ++ [name]) :: onTheWay (header ++ [name]) names

def addEntry (d : Document) (k : Key) (v : Value) : Option Document := do
  let full := d.header ++ k
  let way := onTheWay d.header k
  if way.any (· ∈ d.closed) || isFrozen d.frozen full.dropLast then none
  let table ← insert true full v d.table
  pure { d with
    table
    pending := d.pending ++ way
    frozen := if isCompound v then full :: d.frozen else d.frozen }

def settle (d : Document) : Document := { d with closed := d.closed ++ d.pending, pending := [] }

def openTable (d : Document) (k : Key) : Option Document := do
  if k ∈ d.closed || isFrozen d.frozen k then none
  let table ← within true some k d.table
  pure { d with table, header := k, closed := k :: d.closed }

def appendTable (name : String) (t : Table) : Option Table :=
  match t.lookup name with
  | none => some (t ++ [(name, .list [.table []])])
  | some (.list items) => some (t.set name (.list (items ++ [.table []])))
  | some _ => none

-- Opens a new table in a list by its header. What was settled for the table before it is free again.
def openItem (d : Document) (k : Key) : Option Document := do
  if isFrozen d.frozen k then none
  let name ← k.getLast?
  let table ← within true (appendTable name) k.dropLast d.table
  let others (keys : List Key) := keys.filter fun other => !(k.isPrefixOf other)
  pure { d with table, header := k, frozen := others d.frozen, closed := k :: others d.closed }

def statement (d : Document) (cs : List Char) : Option (Document × List Char) :=
  match cs with
  | [] | '\n' :: _ | '#' :: _ => some (d, cs)
  | '[' :: '[' :: rest => do
      let (k, rest) ← key (skipBlanks rest)
      let d ← d.settle.openItem k
      pure (d, ← expect ']' (← expect ']' rest))
  | '[' :: rest => do
      let (k, rest) ← key (skipBlanks rest)
      let d ← d.settle.openTable k
      pure (d, ← expect ']' rest)
  | cs => do
      let (k, rest) ← key cs
      let (v, rest) ← value (2 * cs.length + 2) (skipBlanks (← expect '=' rest))
      pure (← d.addEntry k v, rest)

def statements : Nat → Document → List Char → Option Document
  | 0, _, _ => none
  | fuel + 1, d, cs => do
      let (d, rest) ← d.statement (skipBlanks cs)
      match ← skipComment (skipBlanks rest) with
      | [] => pure d
      | '\n' :: rest => statements fuel d rest
      | _ => none

end Document

def joinLineEnds : List Char → List Char
  | '\r' :: '\n' :: rest => '\n' :: joinLineEnds rest
  | c :: rest => c :: joinLineEnds rest
  | [] => []

def parse (s : String) : Option Table :=
  let cs := joinLineEnds s.toList
  (Document.statements (cs.length + 1) {} cs).map (·.table)

end ClassDiagram.Toml
