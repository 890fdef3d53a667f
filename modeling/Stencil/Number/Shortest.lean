import Stencil.Number.Decimal

namespace Stencil.Number

-- A closed or open interval of quotients `· / den` around `value / den`.
structure Bounds where
  low : Nat
  value : Nat
  high : Nat
  den : Nat
  closed : Bool

namespace Bounds

-- The reals that round to `mantissa * 2 ^ exponent`. Their ends are the midpoints to the
-- neighbouring doubles, which round to it exactly when the mantissa is even. Below a power of
-- two the neighbour is only half as far.
def ofFinite (mantissa : Nat) (exponent : Int) : Bounds :=
  let narrow := mantissa = twoTo 52 ∧ exponent > -1074
  let scale := if exponent < 2 then 1 else twoTo (exponent - 2).toNat
  let den := if exponent < 2 then twoTo (2 - exponent).toNat else 1
  { low := (4 * mantissa - if narrow then 1 else 2) * scale
    value := 4 * mantissa * scale
    high := (4 * mantissa + 2) * scale
    den
    closed := mantissa % 2 = 0 }

-- The number `k` with `10 ^ (k - 1) ≤ value / den < 10 ^ k`, for a value of at least `10 ^ -400`.
def magnitude (b : Bounds) : Int :=
  ((digitChars (b.value * tenTo 400 / b.den)).length : Int) - 400

-- Whether the decimal lies in the interval.
def contains (b : Bounds) (d : Decimal) : Bool :=
  let num := if d.exponent < 0 then d.digits else d.digits * tenTo d.exponent.toNat
  let unit := if d.exponent < 0 then tenTo (-d.exponent).toNat else 1
  if b.closed then b.low * unit ≤ num * b.den && num * b.den ≤ b.high * unit
  else b.low * unit < num * b.den && num * b.den < b.high * unit

-- The decimal of the given number of digits that stands for the interval, if there is one: of
-- the value's two neighbours on that grid the one inside, of two the nearer, at a tie the larger.
def ofLength? (b : Bounds) (length : Nat) : Option Decimal :=
  let exponent := b.magnitude - length
  let num := if exponent < 0 then b.value * tenTo (-exponent).toNat else b.value
  let den := if exponent < 0 then b.den else b.den * tenTo exponent.toNat
  let below : Decimal := ⟨num / den, exponent⟩
  let above : Decimal := ⟨num / den + 1, exponent⟩
  match b.contains below, b.contains above with
  | true, true => if 2 * (num % den) ≥ den then some above else some below
  | true, false => some below
  | false, true => some above
  | false, false => none

-- The first grid with a hit wins. Seventeen digits always suffice for a double.
def shortest (b : Bounds) : Decimal :=
  (((List.range 17).findSome? fun n => b.ofLength? (n + 1)).getD ⟨0, 0⟩).trim 17

end Bounds

-- The decimal with the fewest digits that reads back as `mantissa * 2 ^ exponent`.
def shortest (mantissa : Nat) (exponent : Int) : Decimal :=
  if mantissa = 0 then ⟨0, 0⟩ else (Bounds.ofFinite mantissa exponent).shortest

end Stencil.Number
