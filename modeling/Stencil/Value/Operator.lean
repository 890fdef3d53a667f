import Stencil.Value.Equality
import Stencil.Value.Fault

namespace Stencil

namespace Number

-- An integer as one of 64 bits, if it is in range.
def int64? (n : Int) : Option Int64 :=
  if Int64.minValue.toInt ≤ n ∧ n ≤ Int64.maxValue.toInt then some (Int64.ofInt n) else none

end Number

-- Two numbers of one kind. An integer next to a double becomes one.
inductive Numbers where
  | ints (a b : Int64)
  | floats (a b : Float)

namespace Value

def numbers? : Value → Value → Option Numbers
  | .int a, .int b => some (.ints a b)
  | .int a, .float b => some (.floats a.toFloat b)
  | .float a, .int b => some (.floats a b.toFloat)
  | .float a, .float b => some (.floats a b)
  | _, _ => none

def unsupported (heap : Heap) (op : BinaryOp) (a b : Value) : Fault :=
  .unsupportedOperands op.symbol (a.typeName heap) (b.typeName heap)

-- Arithmetic on integers is exact or refused.
def arithmetic (heap : Heap) (op : BinaryOp) (ints : Int → Int → Option Int)
    (floats : Float → Float → Float) (a b : Value) : Except Fault Value :=
  match numbers? a b with
  | some (.ints m n) =>
    match (ints m.toInt n.toInt).bind Number.int64? with
    | some r => .ok (.int r)
    | none => .error (.integerOverflow op.symbol)
  | some (.floats x y) => .ok (.float (floats x y))
  | none => .error (unsupported heap op a b)

-- Adds numbers. When one side is a string the texts are joined.
def plus (heap : Heap) (a b : Value) : Except Fault Value :=
  match a, b with
  | .str _, _ | _, .str _ => .ok (.str (a.display heap ++ b.display heap))
  | _, _ => arithmetic heap .plus (fun m n => some (m + n)) (· + ·) a b

-- Quotients of integers are rounded toward zero.
def divide (heap : Heap) (a b : Value) : Except Fault Value :=
  match a, b with
  | .int _, .int 0 => .error .divideByZero
  | _, _ => arithmetic heap .divide (fun m n => some (m.tdiv n)) (· / ·) a b

-- A remainder is refused together with its quotient.
def remainder (heap : Heap) (a b : Value) : Except Fault Value :=
  match a, b with
  | .int _, .int 0 => .error .divideByZero
  | _, _ => arithmetic heap .remainder
      (fun m n => (Number.int64? (m.tdiv n)).map fun _ => m.tmod n) Number.remainder a b

def bitwise (heap : Heap) (op : BinaryOp) (ints : Int64 → Int64 → Int64)
    (bools : Bool → Bool → Bool) (a b : Value) : Except Fault Value :=
  match a, b with
  | .int m, .int n => .ok (.int (ints m n))
  | .bool p, .bool q => .ok (.bool (bools p q))
  | _, _ => .error (unsupported heap op a b)

-- Only the low six bits of the amount count.
def shift (heap : Heap) (op : BinaryOp) (by' : Int64 → Int64 → Int64) (a b : Value) :
    Except Fault Value :=
  match a, b with
  | .int m, .int n => .ok (.int (by' m (n &&& 0x3f)))
  | _, _ => .error (unsupported heap op a b)

def orderFloats (x y : Float) : Option Ordering :=
  if x < y then some .lt
  else if y < x then some .gt
  else if x == y then some .eq
  else none

-- Strings and numbers have an order; a double that is no number has none.
def order? (a b : Value) : Option Ordering :=
  match a, b with
  | .str s, .str t => some (compare s t)
  | _, _ =>
    match numbers? a b with
    | some (.ints m n) => some (compare m n)
    | some (.floats x y) => orderFloats x y
    | none => none

def comparison (heap : Heap) (op : BinaryOp) (holds : Ordering → Bool) (a b : Value) :
    Except Fault Value :=
  match order? a b with
  | some o => .ok (.bool (holds o))
  | none => .error (unsupported heap op a b)

def binary (heap : Heap) (op : BinaryOp) (a b : Value) : Except Fault Value :=
  match op with
  | .plus => plus heap a b
  | .minus => arithmetic heap .minus (fun m n => some (m - n)) (· - ·) a b
  | .times => arithmetic heap .times (fun m n => some (m * n)) (· * ·) a b
  | .divide => divide heap a b
  | .remainder => remainder heap a b
  | .bitAnd => bitwise heap .bitAnd (· &&& ·) (· && ·) a b
  | .bitOr => bitwise heap .bitOr (· ||| ·) (· || ·) a b
  | .bitXor => bitwise heap .bitXor (· ^^^ ·) Bool.xor a b
  | .shiftLeft => shift heap .shiftLeft (· <<< ·) a b
  | .shiftRight => shift heap .shiftRight (· >>> ·) a b
  | .shiftRightZero =>
    shift heap .shiftRightZero (fun m n => (m.toUInt64 >>> n.toUInt64).toInt64) a b
  | .equal => .ok (.bool (a.eq heap b))
  | .notEqual => .ok (.bool !(a.eq heap b))
  | .less => comparison heap .less (· == .lt) a b
  | .lessEqual => comparison heap .lessEqual (· != .gt) a b
  | .greater => comparison heap .greater (· == .gt) a b
  | .greaterEqual => comparison heap .greaterEqual (· != .lt) a b
  | .range =>
    match a, b with
    | .int m, .int n => .ok (.range m n)
    | _, _ => .error (unsupported heap .range a b)

def unary (heap : Heap) (op : UnaryOp) (a : Value) : Except Fault Value :=
  match op, a with
  | .not, a => .ok (.bool !(a.isTruthy heap))
  | .negative, .int n =>
    match Number.int64? (-n.toInt) with
    | some r => .ok (.int r)
    | none => .error (.integerOverflow op.symbol)
  | .negative, .float x => .ok (.float (-x))
  | .bitNot, .int n => .ok (.int (~~~n))
  | op, a => .error (.unsupportedOperand op.symbol (a.typeName heap))

end Value

end Stencil
