import ClassDiagram.Settings.Value

/-!
JSON texts read as values. Beside the standard the words `NaN`, `Infinity` and `-Infinity` are numbers. Of
entries with one key the last one counts, where the first one stood.
-/

namespace ClassDiagram.Json

abbrev Reader (α : Type) := List Char → Option (α × List Char)

def isSpace (c : Char) : Bool := c = ' ' || c = '\t' || c = '\n' || c = '\r'

def skipSpace (cs : List Char) : List Char := cs.dropWhile isSpace

def hexDigit? (c : Char) : Option Nat :=
  if '0' ≤ c ∧ c ≤ '9' then some (c.toNat - 48)
  else if 'a' ≤ c ∧ c ≤ 'f' then some (c.toNat - 87)
  else if 'A' ≤ c ∧ c ≤ 'F' then some (c.toNat - 55)
  else none

def hexNumber? (cs : List Char) : Option Nat :=
  cs.foldlM (fun n c => (hexDigit? c).map (16 * n + ·)) 0

def fourHex : Reader Nat
  | a :: b :: c :: d :: rest => (hexNumber? [a, b, c, d]).map (·, rest)
  | _ => none

def isHighSurrogate (n : Nat) : Bool := 0xD800 ≤ n && n ≤ 0xDBFF

def isLowSurrogate (n : Nat) : Bool := 0xDC00 ≤ n && n ≤ 0xDFFF

def joinSurrogates (high low : Nat) : Char :=
  Char.ofNat (0x10000 + (high - 0xD800) * 0x400 + (low - 0xDC00))

def charOf (n : Nat) : Char :=
  if isHighSurrogate n || isLowSurrogate n then '\uFFFD' else Char.ofNat n

def simpleEscape? : Char → Option Char
  | '"' => some '"'
  | '\\' => some '\\'
  | '/' => some '/'
  | 'b' => some '\x08'
  | 'f' => some '\x0c'
  | 'n' => some '\n'
  | 'r' => some '\r'
  | 't' => some '\t'
  | _ => none

-- The characters of a text up to the quote that closes it. Two surrogates that belong together are one
-- character.
def textBody : Nat → Reader (List Char)
  | 0, _ => none
  | _ + 1, [] => none
  | _ + 1, '"' :: rest => some ([], rest)
  | fuel + 1, '\\' :: 'u' :: rest => do
      let (n, rest) ← fourHex rest
      match rest with
      | '\\' :: 'u' :: more =>
          match isHighSurrogate n, fourHex more with
          | true, some (m, after) =>
              if isLowSurrogate m then
                let (cs, rest) ← textBody fuel after
                pure (joinSurrogates n m :: cs, rest)
              else
                let (cs, rest) ← textBody fuel rest
                pure (charOf n :: cs, rest)
          | _, _ =>
              let (cs, rest) ← textBody fuel rest
              pure (charOf n :: cs, rest)
      | _ =>
          let (cs, rest) ← textBody fuel rest
          pure (charOf n :: cs, rest)
  | fuel + 1, '\\' :: c :: rest => do
      let e ← simpleEscape? c
      let (cs, rest) ← textBody fuel rest
      pure (e :: cs, rest)
  | fuel + 1, c :: rest => do
      if c < ' ' || c = '\\' then none
      let (cs, rest) ← textBody fuel rest
      pure (c :: cs, rest)

def text : Reader String := fun cs => do
  let (body, rest) ← textBody (cs.length + 1) cs
  pure (String.ofList body, rest)

def decimalNumber (cs : List Char) : Nat := cs.foldl (fun n c => 10 * n + (c.toNat - 48)) 0

def digits (cs : List Char) : List Char × List Char := (cs.takeWhile Char.isDigit, cs.dropWhile Char.isDigit)

def wholeDigits : Reader (List Char)
  | '0' :: rest => some (['0'], rest)
  | cs => match digits cs with
    | ([], _) => none
    | (ds, rest) => some (ds, rest)

def fraction : List Char → List Char × List Char
  | '.' :: cs => match digits cs with
    | ([], _) => ([], '.' :: cs)
    | (ds, rest) => (ds, rest)
  | cs => ([], cs)

def signed : List Char → Bool × List Char
  | '-' :: cs => (true, cs)
  | '+' :: cs => (false, cs)
  | cs => (false, cs)

def exponent (cs : List Char) : Option Int × List Char :=
  match cs with
  | c :: rest =>
      if c = 'e' || c = 'E' then
        let (negative, after) := signed rest
        match digits after with
        | ([], _) => (none, cs)
        | (ds, rest) => (some (if negative then -decimalNumber ds else decimalNumber ds), rest)
      else (none, cs)
  | [] => (none, cs)

def unsigned (negative : Bool) : Reader Value := fun cs => do
  let (ds, rest) ← wholeDigits cs
  let (fs, rest) := fraction rest
  let (power, rest) := exponent rest
  if fs = [] ∧ power = none then
    let n : Int := decimalNumber ds
    pure (.int (if negative then -n else n), rest)
  else
    pure (.float (Double.ofDecimal
      { negative, digits := decimalNumber (ds ++ fs), exponent := power.getD 0 - fs.length }), rest)

def word (w : String) (cs : List Char) : Option (List Char) :=
  if w.toList.isPrefixOf cs then some (cs.drop w.length) else none

def words : List (String × Value) :=
  [("null", .null), ("true", .bool true), ("false", .bool false), ("NaN", .float .notFinite),
    ("Infinity", .float .notFinite), ("-Infinity", .float .notFinite)]

def scalar : Reader Value := fun cs =>
  match words.findSome? fun (w, v) => (word w cs).map (v, ·) with
  | some found => some found
  | none => match cs with
    | '-' :: rest => unsigned true rest
    | _ => unsigned false cs

mutual

def value : Nat → Reader Value
  | 0, _ => none
  | fuel + 1, cs =>
      match cs with
      | '"' :: rest => (text rest).map fun (s, rest) => (.text s, rest)
      | '[' :: rest =>
          match skipSpace rest with
          | ']' :: rest => some (.list [], rest)
          | rest => (items fuel rest).map fun (vs, rest) => (.list vs, rest)
      | '{' :: rest =>
          match skipSpace rest with
          | '}' :: rest => some (.table [], rest)
          | rest => (members fuel [] rest).map fun (t, rest) => (.table t, rest)
      | _ => scalar cs

def items : Nat → Reader (List Value)
  | 0, _ => none
  | fuel + 1, cs => do
      let (v, rest) ← value fuel cs
      match skipSpace rest with
      | ']' :: rest => pure ([v], rest)
      | ',' :: rest =>
          let (vs, rest) ← items fuel (skipSpace rest)
          pure (v :: vs, rest)
      | _ => none

def members : Nat → Table → Reader Table
  | 0, _, _ => none
  | fuel + 1, t, cs =>
      match cs with
      | '"' :: rest => do
          let (key, rest) ← text rest
          match skipSpace rest with
          | ':' :: rest =>
              let (v, rest) ← value fuel (skipSpace rest)
              let t := Table.set t key v
              match skipSpace rest with
              | '}' :: rest => pure (t, rest)
              | ',' :: rest => members fuel t (skipSpace rest)
              | _ => none
          | _ => none
      | _ => none

end

def parse (s : String) : Option Value :=
  let cs := s.toList
  match value (2 * cs.length + 2) (skipSpace cs) with
  | some (v, rest) => if skipSpace rest = [] then some v else none
  | none => none

end ClassDiagram.Json
