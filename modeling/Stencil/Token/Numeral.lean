import Stencil.Number.Decimal
import Stencil.Token.Basic

namespace Stencil.Token

def isHexDigit (c : Char) : Bool :=
  c.isDigit || ('a' ≤ c && c ≤ 'f') || ('A' ≤ c && c ≤ 'F')

def hexDigitValue (c : Char) : Nat :=
  if c.isDigit then c.toNat - '0'.toNat
  else if 'a' ≤ c then c.toNat - 'a'.toNat + 10
  else c.toNat - 'A'.toNat + 10

def ofHexDigits (cs : List Char) : Nat := cs.foldl (fun n c => 16 * n + hexDigitValue c) 0

-- A natural number as an integer of 64 bits, if it is small enough.
def int64? (n : Nat) : Option Int64 :=
  if n ≤ Int64.maxValue.toInt then some (Int64.ofInt n) else none

-- The spelling of a number is refused as a whole.
def integerOf (spelling : List Char) (value : Option Int64) :
    Except ParseFault (Terminal × Literal) :=
  match value with
  | some n => .ok (.integer, .int n)
  | none => .error (.invalidNumber (String.ofList spelling))

-- A point is part of a number only when a digit follows, so that `1..5` is a range.
def scanFraction (s : Cursor) : Option (List Char × Cursor) :=
  match s.rest with
  | '.' :: d :: _ => if d.isDigit then some ((s.skip 1).takeWhile Char.isDigit) else none
  | _ => none

-- Likewise an exponent mark needs a digit after it and its sign.
def scanExponent (s : Cursor) : Option (Bool × List Char × Cursor) :=
  let afterSign (negative : Bool) (s : Cursor) : Option (Bool × List Char × Cursor) :=
    match s.rest with
    | d :: _ => if d.isDigit then some (negative, s.takeWhile Char.isDigit) else none
    | [] => none
  match s.rest with
  | e :: r =>
    if e = 'e' ∨ e = 'E' then
      match r with
      | '+' :: _ => afterSign false (s.skip 2)
      | '-' :: _ => afterSign true (s.skip 2)
      | _ => afterSign false (s.skip 1)
    else none
  | [] => none

def scanDecimal (s : Cursor) : Except ParseFault (Terminal × Literal) × Cursor :=
  let (whole, s₁) := s.takeWhile Char.isDigit
  let fraction := scanFraction s₁
  let s₂ := (fraction.map Prod.snd).getD s₁
  let exponent := scanExponent s₂
  let s₃ := (exponent.map (·.2.2)).getD s₂
  if fraction.isNone && exponent.isNone then
    (integerOf whole (int64? (Number.ofDigits whole)), s₁)
  else
    let places := (fraction.map Prod.fst).getD []
    let power : Int := match exponent with
      | some (true, digits, _) => -(Number.ofDigits digits)
      | some (false, digits, _) => Number.ofDigits digits
      | none => 0
    let value : Number.Decimal := ⟨Number.ofDigits (whole ++ places), power - places.length⟩
    (.ok (.float, .float (value.toFloat false)), s₃)

-- Reads the number at a digit.
def scanNumber (s : Cursor) : Except ParseFault (Terminal × Literal) × Cursor :=
  match s.rest with
  | '0' :: x :: _ =>
    if x = 'x' ∨ x = 'X' then
      let (digits, s') := (s.skip 2).takeWhile isHexDigit
      let value := if digits.isEmpty then none else int64? (ofHexDigits digits)
      (integerOf ('0' :: x :: digits) value, s')
    else scanDecimal s
  | _ => scanDecimal s

end Stencil.Token
