namespace Stencil.Number

-- Powers of two and of ten.
def twoTo (n : Nat) : Nat := Nat.pow 2 n

def tenTo (n : Nat) : Nat := Nat.pow 10 n

-- A finite double is `±mantissa * 2 ^ exponent`; the other two forms are kept apart.
inductive Binary64 where
  | nan
  | infinite (negative : Bool)
  | finite (negative : Bool) (mantissa : Nat) (exponent : Int)
  deriving Repr, DecidableEq

namespace Binary64

def ofFloat (x : Float) : Binary64 :=
  let bits := x.toBits.toNat
  let negative := bits ≥ twoTo 63
  let field : Nat := bits / twoTo 52 % twoTo 11
  let fraction := bits % twoTo 52
  if field = 0x7ff then
    if fraction = 0 then .infinite negative else .nan
  else if field = 0 then .finite negative fraction (-1074)
  else .finite negative (twoTo 52 + fraction) ((field : Int) - 1075)

-- The whole part of the base two logarithm of a positive quotient.
def floorLog2 (num den : Nat) : Int :=
  let guess : Int := (num.log2 : Int) - den.log2
  let above := if guess ≥ 0 then num < den * twoTo guess.toNat else num * twoTo (-guess).toNat < den
  if above then guess - 1 else guess

-- The bits of the double nearest to `num / den`, a half going to the even neighbour.
-- The quotient is scaled so that its whole part fills the mantissa; a mantissa that rounds up
-- to the next power of two carries into the exponent field by plain addition.
def nearestBits (num den : Nat) : Nat :=
  if num = 0 then 0 else
  let exponent := max (-1074) (floorLog2 num den - 52)
  let num' := if exponent < 0 then num * twoTo (-exponent).toNat else num
  let den' := if exponent < 0 then den else den * twoTo exponent.toNat
  let whole := num' / den'
  let rest := num' % den'
  let rounded := if 2 * rest > den' ∨ (2 * rest = den' ∧ whole % 2 = 1) then whole + 1 else whole
  min ((exponent + 1074).toNat * twoTo 52 + rounded) (0x7ff * twoTo 52)

-- The double nearest to `±num / den`. A magnitude too large is infinite.
def nearest (negative : Bool) (num den : Nat) : Float :=
  Float.ofBits (UInt64.ofNat (nearestBits num den + if negative then twoTo 63 else 0))

-- The double `±mantissa * 2 ^ exponent`.
def toFloat : Binary64 → Float
  | .nan => Float.ofBits 0x7ff8000000000000
  | .infinite negative => nearest negative (twoTo 1024) 1
  | .finite negative mantissa exponent =>
    if exponent < 0 then nearest negative mantissa (twoTo (-exponent).toNat)
    else nearest negative (mantissa * twoTo exponent.toNat) 1

-- The remainder of a division whose quotient is rounded toward zero. It is exact and has the
-- sign of the dividend.
def remainder : Binary64 → Binary64 → Binary64
  | .finite negative m e, .finite _ n f =>
    if n = 0 then .nan else
    let low := min e f
    .finite negative (m * twoTo (e - low).toNat % (n * twoTo (f - low).toNat)) low
  | .finite negative m e, .infinite _ => .finite negative m e
  | _, _ => .nan

-- Whether the value is a whole number.
def isWhole : Binary64 → Bool
  | .finite _ mantissa exponent => exponent ≥ 0 || mantissa % twoTo (-exponent).toNat = 0
  | _ => false

end Binary64

-- The remainder of two doubles, computed exactly.
def remainder (x y : Float) : Float :=
  (Binary64.remainder (Binary64.ofFloat x) (Binary64.ofFloat y)).toFloat

end Stencil.Number
