import ClassDiagram.Text.Printable

/-!
Texts as they are quoted in messages. The quote is `'`, unless the text has a `'` and no `"`. The quote,
the backslash and the line controls are escaped by a backslash; a character without a visible form is
written by its code point in two, four or eight hexadecimal digits.
-/

namespace ClassDiagram.Text

def hexDigits : Nat → Nat → List Char
  | 0, _ => []
  | width + 1, n => hexDigits width (n / 16) ++ [Nat.digitChar (n % 16)]

def quoteFor (cs : List Char) : Char :=
  if cs.contains '\'' && !cs.contains '"' then '"' else '\''

def escapeChar (quote c : Char) : List Char :=
  if c = quote || c = '\\' then ['\\', c]
  else if c = '\n' then ['\\', 'n']
  else if c = '\t' then ['\\', 't']
  else if c = '\r' then ['\\', 'r']
  else if isPrintable c then [c]
  else if c.toNat < 0x100 then '\\' :: 'x' :: hexDigits 2 c.toNat
  else if c.toNat < 0x10000 then '\\' :: 'u' :: hexDigits 4 c.toNat
  else '\\' :: 'U' :: hexDigits 8 c.toNat

def quoted (s : String) : String :=
  let quote := quoteFor s.toList
  String.ofList (quote :: s.toList.flatMap (escapeChar quote) ++ [quote])

example : quoted "It's" = "\"It's\"" := by decide +kernel
example : quoted "q\"'x" = "'q\"\\'x'" := by decide +kernel
example : quoted "\x1b" = "'\\x1b'" := by decide +kernel

end ClassDiagram.Text
