import ClassDiagram.Settings.Toml.Text

/-!
Numbers, dates and times of TOML documents. Digits may have single underscores between them.
-/

namespace ClassDiagram.Toml

def digitRun (isDigit : Char → Bool) : List Char → List Char × List Char
  | [] => ([], [])
  | [c] => if isDigit c then ([c], []) else ([], [c])
  | c :: d :: rest =>
      if !isDigit c then ([], c :: d :: rest)
      else if d = '_' then
        match rest with
        | [] => ([c], [d])
        | e :: more =>
            if isDigit e then
              let (ds, after) := digitRun isDigit (e :: more)
              (c :: ds, after)
            else ([c], d :: e :: more)
      else
        let (ds, after) := digitRun isDigit (d :: rest)
        (c :: ds, after)
termination_by cs => cs.length

def based : Reader Int
  | '0' :: mark :: rest =>
      let base := if mark = 'x' then 16 else if mark = 'o' then 8 else if mark = 'b' then 2 else 0
      let isDigit c := match Json.hexDigit? c with
        | some n => n < base
        | none => false
      match digitRun isDigit rest with
      | ([], _) => none
      | (ds, rest) =>
          let n : Nat := ds.foldl (fun n c => base * n + (Json.hexDigit? c).getD 0) 0
          some (n, rest)
  | _ => none

def wholeRun : Reader (List Char)
  | '0' :: rest => some (['0'], rest)
  | cs => match digitRun Char.isDigit cs with
    | ([], _) => none
    | (ds, rest) => some (ds, rest)

def fractionRun : List Char → List Char × List Char
  | '.' :: cs => match digitRun Char.isDigit cs with
    | ([], _) => ([], '.' :: cs)
    | (ds, rest) => (ds, rest)
  | cs => ([], cs)

def exponentRun (cs : List Char) : Option Int × List Char :=
  match cs with
  | c :: rest =>
      if c = 'e' || c = 'E' then
        let (negative, after) := Json.signed rest
        match digitRun Char.isDigit after with
        | ([], _) => (none, cs)
        | (ds, rest) =>
            let n := Json.decimalNumber ds
            (some (if negative then -n else n), rest)
      else (none, cs)
  | [] => (none, cs)

def decimal : Reader Value := fun cs => do
  let (negative, rest) := Json.signed cs
  let (ds, rest) ← wholeRun rest
  let (fs, rest) := fractionRun rest
  let (power, rest) := exponentRun rest
  if fs = [] ∧ power = none then
    let n : Int := Json.decimalNumber ds
    pure (.int (if negative then -n else n), rest)
  else
    pure (.float (Double.ofDecimal
      { negative, digits := Json.decimalNumber (ds ++ fs), exponent := power.getD 0 - fs.length }), rest)

def number : Reader Value := fun cs =>
  match based cs with
  | some (n, rest) => some (.int n, rest)
  | none => decimal cs

def fixed (count low high : Nat) : Reader Nat := fun cs =>
  let ds := cs.take count
  let n := Json.decimalNumber ds
  if ds.length = count && ds.all Char.isDigit && low ≤ n && n ≤ high then some (n, cs.drop count) else none

def expect (c : Char) : List Char → Option (List Char)
  | d :: rest => if d = c then some rest else none
  | [] => none

def time (cs : List Char) : Option (List Char) := do
  let (_, rest) ← fixed 2 0 23 cs
  let (_, rest) ← fixed 2 0 59 (← expect ':' rest)
  let (_, rest) ← fixed 2 0 59 (← expect ':' rest)
  pure (match rest with
    | '.' :: more => if (more.head?.map Char.isDigit).getD false then more.dropWhile Char.isDigit else rest
    | _ => rest)

def offset (cs : List Char) : List Char :=
  match cs with
  | 'Z' :: rest | 'z' :: rest => rest
  | c :: rest =>
      let given := do
        if c ≠ '+' && c ≠ '-' then none
        let (_, rest) ← fixed 2 0 23 rest
        let (_, rest) ← fixed 2 0 59 (← expect ':' rest)
        pure rest
      given.getD cs
  | [] => cs

def daysIn (year month : Nat) : Nat :=
  if month = 2 then
    if (year % 4 = 0 && year % 100 ≠ 0) || year % 400 = 0 then 29 else 28
  else if month = 4 || month = 6 || month = 9 || month = 11 then 30
  else 31

def date : Reader (Nat × Nat × Nat) := fun cs => do
  let (year, rest) ← fixed 4 0 9999 cs
  let (month, rest) ← fixed 2 1 12 (← expect '-' rest)
  let (day, rest) ← fixed 2 1 31 (← expect '-' rest)
  pure ((year, month, day), rest)

def afterDate (cs : List Char) : List Char :=
  match cs with
  | c :: rest =>
      if c = 'T' || c = 't' || c = ' ' then ((time rest).map offset).getD cs else cs
  | [] => cs

def numeral : Reader Value := fun cs =>
  match date cs with
  | some ((year, month, day), rest) =>
      if 1 ≤ year && day ≤ daysIn year month then some (.moment, afterDate rest) else none
  | none => match time cs with
    | some rest => some (.moment, rest)
    | none => number cs

end ClassDiagram.Toml
