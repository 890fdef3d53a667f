import Stencil.Number.Shortest

namespace Stencil.Number

-- Digits with a point after the first `point` of them, zeros filling the gaps.
def positional (digits : List Char) (point : Int) : List Char :=
  if point ≤ 0 then '0' :: '.' :: List.replicate (-point).toNat '0' ++ digits
  else if point < digits.length then
    digits.take point.toNat ++ '.' :: digits.drop point.toNat
  else digits ++ List.replicate (point.toNat - digits.length) '0'

-- One digit, the others after a point, and the power of ten.
def scientific (digits : List Char) (point : Int) : List Char :=
  let power := (toString (point - 1)).toList
  match digits with
  | [] => []
  | [d] => d :: 'e' :: power
  | d :: more => d :: '.' :: more ++ 'e' :: power

def signed (negative : Bool) (cs : List Char) : String :=
  String.ofList (if negative then '-' :: cs else cs)

-- How doubles are written: whether a whole number ends in `.0`, and whether numbers of at least
-- 10 ^ 16 or below 10 ^ -4 are written with a power of ten.
structure Style where
  pointZero : Bool
  powers : Bool

-- Plain numbers: never a power of ten, no digits after the point that are not needed.
def plain : Style := ⟨false, false⟩

-- Numbers as they stand in a tree listing.
def listed : Style := ⟨true, true⟩

def Style.finite (style : Style) (mantissa : Nat) (exponent : Int) : List Char :=
  let d := shortest mantissa exponent
  let digits := digitChars d.digits
  let point := d.exponent + digits.length
  if mantissa = 0 then if style.pointZero then ['0', '.', '0'] else ['0']
  else if style.powers ∧ (point > 16 ∨ point < -3) then scientific digits point
  else if style.pointZero ∧ point ≥ digits.length then positional digits point ++ ['.', '0']
  else positional digits point

def Style.write (style : Style) (x : Float) : String :=
  match Binary64.ofFloat x with
  | .nan => "NaN"
  | .infinite negative => signed negative ['i', 'n', 'f']
  | .finite negative mantissa exponent => signed negative (style.finite mantissa exponent)

-- A double as the text of a value: a whole number shows all its digits and one zero after the
-- point, every other number is plain.
def valueText (x : Float) : String :=
  match Binary64.ofFloat x with
  | .finite negative mantissa exponent =>
    if (Binary64.finite negative mantissa exponent).isWhole then
      let whole := if exponent ≥ 0 then mantissa * twoTo exponent.toNat
        else mantissa / twoTo (-exponent).toNat
      signed negative (digitChars whole ++ ['.', '0'])
    else plain.write x
  | _ => plain.write x

end Stencil.Number
