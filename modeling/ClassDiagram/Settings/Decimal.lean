/-!
Decimal numbers, and what becomes of them when they are kept in double precision. Only three things about
the kept number matter for a setting: whether it is finite, whether it is whole, and which whole number it
is. A number is kept as the nearest one with 53 binary digits, and a tie goes to the even one.
-/

namespace ClassDiagram

structure Decimal where
  negative : Bool := false
  digits : Nat
  exponent : Int := 0
  deriving DecidableEq, Repr

inductive Double where
  | notFinite
  | fractional
  | whole (n : Int)
  deriving DecidableEq, Repr

def nearestQuotient (num den : Nat) : Nat :=
  let q := num / den
  let r := num % den
  if 2 * r < den || (2 * r = den && q % 2 = 0) then q else q + 1

def nearestScaled (num den : Nat) (shift : Int) : Nat :=
  if 0 ≤ shift then nearestQuotient (num * Nat.pow 2 shift.toNat) den
  else nearestQuotient num (den * Nat.pow 2 (-shift).toNat)

def belowPower (num den : Nat) (power : Int) : Bool :=
  if 0 ≤ power then num < den * Nat.pow 2 power.toNat else num * Nat.pow 2 (-power).toNat < den

namespace Double

def precision : Nat := 53

def maxShift : Int := 1074

def maxPower : Nat := 1024

def ofQuotient (num den : Nat) : Double :=
  let estimate : Int := num.log2 - den.log2
  let power := if belowPower num den estimate then estimate - 1 else estimate
  let shift := min (precision - 1 - power) maxShift
  let kept := nearestScaled num den shift
  if shift ≤ 0 then
    let n := kept * Nat.pow 2 (-shift).toNat
    if n < Nat.pow 2 maxPower then .whole n else .notFinite
  else if kept % Nat.pow 2 shift.toNat = 0 then .whole (kept / Nat.pow 2 shift.toNat : Nat)
  else .fractional

def negate : Double → Double
  | .whole n => .whole (-n)
  | d => d

-- A decimal number in double precision. Numbers that are certainly too large or too small are told by
-- the place of their first digit.
def ofDecimal (d : Decimal) : Double :=
  let place := (Nat.toDigits 10 d.digits).length + d.exponent
  let size :=
    if d.digits = 0 || place < -330 then .whole 0
    else if 310 < place then .notFinite
    else if 0 ≤ d.exponent then ofQuotient (d.digits * Nat.pow 10 d.exponent.toNat) 1
    else ofQuotient d.digits (Nat.pow 10 (-d.exponent).toNat)
  if d.negative then size.negate else size

example : ofDecimal { digits := 30, exponent := -1 } = .whole 3 := by decide +kernel
example : ofDecimal { digits := 25, exponent := -1, negative := true } = .fractional := by decide +kernel
example : ofDecimal { digits := 9007199254740993 } = .whole 9007199254740992 := by decide +kernel
example : ofDecimal { digits := 1, exponent := 400 } = .notFinite := by decide +kernel
example : ofDecimal { digits := 17976931348623159, exponent := 292 } = .notFinite := by decide +kernel
example : ofDecimal { digits := 1, exponent := -400 } = .whole 0 := by decide +kernel

end Double

end ClassDiagram
