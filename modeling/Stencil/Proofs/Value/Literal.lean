import Stencil.Tree.Fold

namespace Stencil

-- Operators look at no cell when their operands are literals.
namespace Value

@[simp] theorem ofLiteral_bool (p : Bool) : ofLiteral (.bool p) = .bool p := rfl

theorem isTruthy_ofLiteral (heap : Heap) (a : Literal) :
    (ofLiteral a).isTruthy heap = a.isTruthy := by
  cases a <;> rfl

theorem typeName_ofLiteral (heap : Heap) (a : Literal) :
    (ofLiteral a).typeName heap = (ofLiteral a).typeName .empty := by
  cases a <;> rfl

theorem display_ofLiteral (heap : Heap) (a : Literal) :
    (ofLiteral a).display heap = (ofLiteral a).display .empty := by
  cases a <;> simp only [display, ofLiteral, displayWithin]

theorem eq_ofLiteral (heap : Heap) (a b : Literal) :
    (ofLiteral a).eq heap (ofLiteral b) = (ofLiteral a).eq .empty (ofLiteral b) := by
  cases a <;> cases b <;> simp only [eq, ofLiteral, eqWithin]

theorem unsupported_ofLiteral (heap : Heap) (op : BinaryOp) (a b : Literal) :
    unsupported heap op (ofLiteral a) (ofLiteral b) =
      unsupported .empty op (ofLiteral a) (ofLiteral b) := by
  rw [unsupported, unsupported, typeName_ofLiteral heap a, typeName_ofLiteral heap b]

theorem arithmetic_ofLiteral (heap : Heap) (op : BinaryOp) (ints : Int → Int → Option Int)
    (floats : Float → Float → Float) (a b : Literal) :
    arithmetic heap op ints floats (ofLiteral a) (ofLiteral b) =
      arithmetic .empty op ints floats (ofLiteral a) (ofLiteral b) := by
  rw [arithmetic, arithmetic, unsupported_ofLiteral heap]

theorem comparison_ofLiteral (heap : Heap) (op : BinaryOp) (holds : Ordering → Bool)
    (a b : Literal) :
    comparison heap op holds (ofLiteral a) (ofLiteral b) =
      comparison .empty op holds (ofLiteral a) (ofLiteral b) := by
  rw [comparison, comparison, unsupported_ofLiteral heap]

theorem bitwise_ofLiteral (heap : Heap) (op : BinaryOp) (ints : Int64 → Int64 → Int64)
    (bools : Bool → Bool → Bool) (a b : Literal) :
    bitwise heap op ints bools (ofLiteral a) (ofLiteral b) =
      bitwise .empty op ints bools (ofLiteral a) (ofLiteral b) := by
  unfold bitwise
  rw [unsupported_ofLiteral heap]

theorem shift_ofLiteral (heap : Heap) (op : BinaryOp) (by' : Int64 → Int64 → Int64)
    (a b : Literal) :
    shift heap op by' (ofLiteral a) (ofLiteral b) =
      shift .empty op by' (ofLiteral a) (ofLiteral b) := by
  unfold shift
  rw [unsupported_ofLiteral heap]

theorem binary_ofLiteral (heap : Heap) (op : BinaryOp) (a b : Literal) :
    binary heap op (ofLiteral a) (ofLiteral b) =
      binary .empty op (ofLiteral a) (ofLiteral b) := by
  cases op with
  | plus =>
      simp only [binary, plus, display_ofLiteral heap, arithmetic_ofLiteral heap]
  | divide => simp only [binary, divide, arithmetic_ofLiteral heap]
  | remainder => simp only [binary, remainder, arithmetic_ofLiteral heap]
  | minus => simp only [binary, arithmetic_ofLiteral heap]
  | times => simp only [binary, arithmetic_ofLiteral heap]
  | bitAnd => simp only [binary, bitwise_ofLiteral heap]
  | bitOr => simp only [binary, bitwise_ofLiteral heap]
  | bitXor => simp only [binary, bitwise_ofLiteral heap]
  | shiftLeft => simp only [binary, shift_ofLiteral heap]
  | shiftRight => simp only [binary, shift_ofLiteral heap]
  | shiftRightZero => simp only [binary, shift_ofLiteral heap]
  | equal => simp only [binary, eq_ofLiteral heap]
  | notEqual => simp only [binary, eq_ofLiteral heap]
  | less => simp only [binary, comparison_ofLiteral heap]
  | lessEqual => simp only [binary, comparison_ofLiteral heap]
  | greater => simp only [binary, comparison_ofLiteral heap]
  | greaterEqual => simp only [binary, comparison_ofLiteral heap]
  | range => simp only [binary, unsupported_ofLiteral heap]

theorem unary_ofLiteral (heap : Heap) (op : UnaryOp) (a : Literal) :
    unary heap op (ofLiteral a) = unary .empty op (ofLiteral a) := by
  cases op <;> cases a <;> rfl

end Value

-- What was worked out early is what the operator gives when it is run.
theorem binary_of_foldBinary {op : BinaryOp} {a b value : Literal}
    (h : foldBinary op a b = some value) (heap : Heap) :
    Value.binary heap op (.ofLiteral a) (.ofLiteral b) = .ok (.ofLiteral value) := by
  rw [Value.binary_ofLiteral]
  rw [foldBinary] at h
  cases hresult : Value.binary .empty op (.ofLiteral a) (.ofLiteral b) with
  | error fault => simp [hresult, Except.toOption] at h
  | ok v =>
      simp only [hresult, Except.toOption, Option.bind_some] at h
      rw [Value.eq_ofLiteral_of_literal? h]

theorem unary_of_foldUnary {op : UnaryOp} {a value : Literal} (h : foldUnary op a = some value)
    (heap : Heap) : Value.unary heap op (.ofLiteral a) = .ok (.ofLiteral value) := by
  rw [Value.unary_ofLiteral]
  rw [foldUnary] at h
  cases hresult : Value.unary .empty op (.ofLiteral a) with
  | error fault => simp [hresult, Except.toOption] at h
  | ok v =>
      simp only [hresult, Except.toOption, Option.bind_some] at h
      rw [Value.eq_ofLiteral_of_literal? h]

end Stencil
