import Stencil.Number.Binary64

namespace Stencil.Number

-- The number `digits * 10 ^ exponent`.
structure Decimal where
  digits : Nat
  exponent : Int
  deriving Repr, DecidableEq

def digitChars (n : Nat) : List Char := Nat.toDigits 10 n

-- The value of a list of decimal digits.
def ofDigits (cs : List Char) : Nat :=
  cs.foldl (fun n c => 10 * n + (c.toNat - '0'.toNat)) 0

namespace Decimal

-- The double nearest to the number. Exponents far outside the range of a double are cut off
-- first: the answer is already zero or infinite there.
def toFloat (negative : Bool) (d : Decimal) : Float :=
  let size := (digitChars d.digits).length
  if d.digits = 0 ∨ d.exponent + size < -400 then Binary64.nearest negative 0 1
  else if d.exponent + size > 400 then Binary64.nearest negative (twoTo 1024) 1
  else if d.exponent < 0 then Binary64.nearest negative d.digits (tenTo (-d.exponent).toNat)
  else Binary64.nearest negative (d.digits * tenTo d.exponent.toNat) 1

-- Moves factors of ten from the digits into the exponent.
def trim : Nat → Decimal → Decimal
  | 0, d => d
  | fuel + 1, d =>
    if d.digits ≠ 0 ∧ d.digits % 10 = 0 then trim fuel ⟨d.digits / 10, d.exponent + 1⟩ else d

end Decimal

end Stencil.Number
