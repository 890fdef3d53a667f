import Stencil.Proofs.Alike.Shown
import Stencil.Value.Operator

namespace Stencil

variable {ρ : Renaming} {h h' : Heap}

theorem isEmpty_eq_of_forall₂ {R : α → β → Prop} {xs : List α} {ys : List β}
    (h : List.Forall₂ R xs ys) : ys.isEmpty = xs.isEmpty := by
  cases h <;> rfl

namespace Value

variable {u u' v v' : Value}

namespace Alike

theorem cls (hh : h.Alike ρ h') (hv : v.Alike ρ v') : v'.cls h' = v.cls h := by
  cases hv with
  | plain hplain => cases v <;> first | rfl | cases hplain
  | @host a b hab =>
      obtain ⟨o, state, ho, ho', -, -⟩ := hh.host hab
      simp [Value.cls, ho, ho']
  | _ => rfl

theorem typeName (hh : h.Alike ρ h') (hv : v.Alike ρ v') : v'.typeName h' = v.typeName h := by
  rw [Value.typeName, Value.typeName, cls hh hv]

theorem isTruthy (hh : h.Alike ρ h') (hv : v.Alike ρ v') : v'.isTruthy h' = v.isTruthy h := by
  cases hv with
  | plain hplain => cases v <;> first | rfl | cases hplain
  | list hab => exact congrArg not (isEmpty_eq_of_forall₂ (hh.items hab))
  | map hab => exact congrArg not (isEmpty_eq_of_forall₂ (hh.entries hab))
  | _ => rfl

end Alike

-- The class of a value that runs see is known.
theorem known_cls {classes : Class → Prop} {t : Aside classes} (hh : h.Paired t ρ h')
    (hv : v.Alike ρ v') :
    classes (v.cls h) := by
  cases hv with
  | plain hplain =>
      cases v with
      | list _ | map _ | function _ _ | native _ _ | iter _ | host _ => cases hplain
      | _ => exact t.builtin _ (by simp [Class.builtin, cls])
  | @host a b hab =>
      obtain ⟨o, state, ho, -, -, -⟩ := hh.alike.host hab
      have hknown : (Content.host o).Known classes := hh.known hab _ (by simp [Heap.get?, ho])
      have hcls : (Value.host a).cls h = o.cls := by simp [cls, ho]
      rw [hcls]
      exact hknown
  | _ => exact t.builtin _ (by simp [Class.builtin, cls])

section

variable (hh : h.Alike ρ h') (hu : u.Alike ρ u') (hv : v.Alike ρ v')

include hu hv in
theorem numbers?_alike : numbers? u' v' = numbers? u v := by
  cases hu with
  | plain hplain =>
      cases hv with
      | plain _ => rfl
      | _ => cases u <;> rfl
  | _ => cases hv <;> rfl

include hu hv in
theorem order?_alike : order? u' v' = order? u v := by
  cases hu with
  | plain hplain =>
      cases hv with
      | plain _ => rfl
      | _ => cases u <;> rfl
  | _ => cases hv <;> rfl

include hh hu hv

theorem unsupported_alike (op : BinaryOp) : unsupported h' op u' v' = unsupported h op u v := by
  rw [unsupported, unsupported, hu.typeName hh, hv.typeName hh]

theorem arithmetic_alike (op : BinaryOp) (ints : Int → Int → Option Int)
    (floats : Float → Float → Float) :
    arithmetic h' op ints floats u' v' = arithmetic h op ints floats u v := by
  rw [arithmetic, arithmetic, numbers?_alike hu hv, unsupported_alike hh hu hv]

theorem comparison_alike (op : BinaryOp) (holds : Ordering → Bool) :
    comparison h' op holds u' v' = comparison h op holds u v := by
  rw [comparison, comparison, order?_alike hu hv, unsupported_alike hh hu hv]

theorem bitwise_alike (op : BinaryOp) (ints : Int64 → Int64 → Int64)
    (bools : Bool → Bool → Bool) :
    bitwise h' op ints bools u' v' = bitwise h op ints bools u v := by
  have hrefused := congrArg (Except.error (α := Value)) (unsupported_alike hh hu hv op)
  cases hu with
  | plain hplain =>
      cases hv with
      | plain _ =>
          unfold bitwise
          split
          · rfl
          · rfl
          · exact hrefused
      | _ => cases u <;> exact hrefused
  | _ => exact hrefused

theorem shift_alike (op : BinaryOp) (by' : Int64 → Int64 → Int64) :
    shift h' op by' u' v' = shift h op by' u v := by
  have hrefused := congrArg (Except.error (α := Value)) (unsupported_alike hh hu hv op)
  cases hu with
  | plain hplain =>
      cases hv with
      | plain _ =>
          unfold shift
          split
          · rfl
          · exact hrefused
      | _ => cases u <;> exact hrefused
  | _ => exact hrefused

theorem range_alike : binary h' .range u' v' = binary h .range u v := by
  have hrefused := congrArg (Except.error (α := Value)) (unsupported_alike hh hu hv .range)
  cases hu with
  | plain hplain =>
      cases hv with
      | plain _ =>
          simp only [binary]
          split
          · rfl
          · exact hrefused
      | _ => cases u <;> exact hrefused
  | _ => exact hrefused

theorem plus_alike : plus h' u' v' = plus h u v := by
  have htexts : (.ok (.str (u'.display h' ++ v'.display h')) : Except Fault Value) =
      .ok (.str (u.display h ++ v.display h)) := by
    rw [hu.display hh, hv.display hh]
  have hsum := arithmetic_alike hh hu hv .plus (fun m n => some (m + n)) (· + ·)
  cases hu with
  | plain hplain =>
      cases hv with
      | plain _ =>
          unfold plus
          split
          · exact htexts
          · exact htexts
          · exact hsum
      | _ => cases u <;> first | exact htexts | exact hsum
  | _ =>
      cases hv with
      | plain _ => cases v <;> first | exact htexts | exact hsum
      | _ => exact hsum

-- Only an integer divided by the integer zero is looked at apart.
theorem divide_alike : divide h' u' v' = divide h u v := by
  have hquotient := arithmetic_alike hh hu hv .divide (fun m n => some (m.tdiv n)) (· / ·)
  cases hu with
  | plain hplain =>
      cases hv with
      | plain _ =>
          unfold divide
          split
          · rfl
          · exact hquotient
      | _ => cases u <;> exact hquotient
  | _ => exact hquotient

theorem remainder_alike : remainder h' u' v' = remainder h u v := by
  have hrest := arithmetic_alike hh hu hv .remainder
    (fun m n => (Number.int64? (m.tdiv n)).map fun _ => m.tmod n) Number.remainder
  cases hu with
  | plain hplain =>
      cases hv with
      | plain _ =>
          unfold remainder
          split
          · rfl
          · exact hrest
      | _ => cases u <;> exact hrest
  | _ => exact hrest

theorem binary_alike (op : BinaryOp) : binary h' op u' v' = binary h op u v := by
  cases op with
  | plus => exact plus_alike hh hu hv
  | divide => exact divide_alike hh hu hv
  | remainder => exact remainder_alike hh hu hv
  | minus | times => simp only [binary, arithmetic_alike hh hu hv]
  | bitAnd | bitOr | bitXor => simp only [binary, bitwise_alike hh hu hv]
  | shiftLeft | shiftRight | shiftRightZero => simp only [binary, shift_alike hh hu hv]
  | equal | notEqual => simp only [binary, hu.eq hh hv]
  | less | lessEqual | greater | greaterEqual => simp only [binary, comparison_alike hh hu hv]
  | range => exact range_alike hh hu hv

end

theorem unary_alike (hh : h.Alike ρ h') (hv : v.Alike ρ v') (op : UnaryOp) :
    unary h' op v' = unary h op v := by
  have hrefused : (.error (.unsupportedOperand op.symbol (v'.typeName h')) : Except Fault Value) =
      .error (.unsupportedOperand op.symbol (v.typeName h)) := by
    rw [hv.typeName hh]
  cases op with
  | not => simp only [unary, hv.isTruthy hh]
  | negative =>
      cases hv with
      | plain hplain => cases v <;> first | rfl | exact hrefused
      | _ => exact hrefused
  | bitNot =>
      cases hv with
      | plain hplain => cases v <;> first | rfl | exact hrefused
      | _ => exact hrefused

end Value

end Stencil
