/-!
Reading bytes as UTF-8. Bytes that are no part of a well-formed sequence are read as the
replacement character, one for each longest start of a sequence that could not be completed.
-/

namespace ClassDiagram.Text.Utf8

structure Pending where
  wanted : Nat
  low : Nat
  high : Nat
  bits : Nat
  deriving DecidableEq, Repr

def replacement : Char := '\uFFFD'

def start (b : Nat) : List Char × Option Pending :=
  if b < 0x80 then ([Char.ofNat b], none)
  else if b < 0xC2 then ([replacement], none)
  else if b < 0xE0 then ([], some ⟨1, 0x80, 0xBF, b - 0xC0⟩)
  else if b = 0xE0 then ([], some ⟨2, 0xA0, 0xBF, 0⟩)
  else if b = 0xED then ([], some ⟨2, 0x80, 0x9F, 0xD⟩)
  else if b < 0xF0 then ([], some ⟨2, 0x80, 0xBF, b - 0xE0⟩)
  else if b = 0xF0 then ([], some ⟨3, 0x90, 0xBF, 0⟩)
  else if b < 0xF4 then ([], some ⟨3, 0x80, 0xBF, b - 0xF0⟩)
  else if b = 0xF4 then ([], some ⟨3, 0x80, 0x8F, 4⟩)
  else ([replacement], none)

def step : Option Pending → Nat → List Char × Option Pending
  | none, b => start b
  | some p, b =>
      if p.low ≤ b ∧ b ≤ p.high then
        let bits := p.bits * 64 + (b - 0x80)
        if p.wanted ≤ 1 then ([Char.ofNat bits], none)
        else ([], some ⟨p.wanted - 1, 0x80, 0xBF, bits⟩)
      else
        let (cs, pending) := start b
        (replacement :: cs, pending)

def decodeFrom (pending : Option Pending) : List UInt8 → List Char
  | [] => if pending.isSome then [replacement] else []
  | b :: bs =>
      let (cs, next) := step pending b.toNat
      cs ++ decodeFrom next bs

def decode (bytes : List UInt8) : String := String.ofList (decodeFrom none bytes)

def decodeStrict? (bytes : List UInt8) : Option String :=
  let s := decode bytes
  if s.toUTF8.toList = bytes then some s else none

def dropMark (s : String) : String :=
  match s.toList with
  | '\uFEFF' :: cs => String.ofList cs
  | _ => s

example : decode [0xE2, 0x82] = "\uFFFD" := by decide
example : decode [0xED, 0xA0, 0x80] = "\uFFFD\uFFFD\uFFFD" := by decide
example : decode [0xC0, 0x80] = "\uFFFD\uFFFD" := by decide
example : decode [0xF4, 0x90, 0x80, 0x80] = "\uFFFD\uFFFD\uFFFD\uFFFD" := by decide
example : decode [0xC3, 0xA9, 0x61] = "éa" := by decide

end ClassDiagram.Text.Utf8
