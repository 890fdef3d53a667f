import Mathlib.Algebra.Group.Nat.Defs
import Mathlib.Algebra.Ring.Int.Defs
import Stencil.Value.Operator

namespace Stencil

-- The exact result of an operation on integers, where it is defined. Quotients are rounded toward
-- zero.
def BinaryOp.integer? (op : BinaryOp) (m n : Int) : Option Int :=
  match op with
  | .plus => some (m + n)
  | .minus => some (m - n)
  | .times => some (m * n)
  | .divide => if n = 0 then none else some (m.tdiv n)
  | .remainder => if n = 0 then none else some (m.tmod n)
  | _ => none

def BinaryOp.isArithmetic : BinaryOp → Bool
  | .plus | .minus | .times | .divide | .remainder => true
  | _ => false

namespace Value

variable {heap : Heap} {op : BinaryOp} {a b r : Int64} {m : Int}

-- The result is the exact one if that is an integer of 64 bits. Else it is told which of the two
-- reasons there is for having none.
structure Exactly (answer : Except Fault Value) (symbol : String) (exact : Option Int) : Prop where
  result : ∀ v, answer = .ok v ↔ ∃ r : Int64, v = .int r ∧ exact = some r.toInt
  overflow : ∀ s, answer = .error (.integerOverflow s) ↔
    s = symbol ∧ ∃ m, exact = some m ∧ (m < -2 ^ 63 ∨ 2 ^ 63 ≤ m)
  undefined : answer = .error .divideByZero ↔ exact = none

theorem int64?_eq_some_iff : Number.int64? m = some r ↔ r.toInt = m := by
  have hmin : Int64.minValue.toInt = -2 ^ 63 := rfl
  have hmax : Int64.maxValue.toInt = 2 ^ 63 - 1 := rfl
  have hlow := r.le_toInt
  have hhigh := r.toInt_lt
  unfold Number.int64?
  by_cases h : Int64.minValue.toInt ≤ m ∧ m ≤ Int64.maxValue.toInt
  · have hsame : (Int64.ofInt m).toInt = m := Int64.toInt_ofInt_of_le (by omega) (by omega)
    rw [if_pos h, Option.some.injEq, ← Int64.toInt_inj, hsame, eq_comm]
  · rw [if_neg h]
    refine iff_of_false (by simp) ?_
    omega

theorem int64?_eq_none_iff : Number.int64? m = none ↔ m < -2 ^ 63 ∨ 2 ^ 63 ≤ m := by
  have hmin : Int64.minValue.toInt = -2 ^ 63 := rfl
  have hmax : Int64.maxValue.toInt = 2 ^ 63 - 1 := rfl
  unfold Number.int64?
  split
  · refine iff_of_false (by simp) ?_
    omega
  · refine iff_of_true rfl ?_
    omega

-- What is made of an exact result that is there.
theorem exactly_of_int64? {answer : Except Fault Value} {symbol : String}
    (hresult : ∀ r, Number.int64? m = some r → answer = .ok (.int r))
    (hoverflow : Number.int64? m = none → answer = .error (.integerOverflow symbol)) :
    Exactly answer symbol (some m) := by
  cases hfits : Number.int64? m with
  | some r =>
      have hanswer := hresult r hfits
      have hr := int64?_eq_some_iff.mp hfits
      have hlow := r.le_toInt
      have hhigh := r.toInt_lt
      refine ⟨fun v => ?_, fun s => ?_, ?_⟩
      · constructor
        · intro h
          rw [hanswer] at h
          cases h
          exact ⟨r, rfl, by rw [hr]⟩
        · rintro ⟨r', rfl, h⟩
          rw [hanswer, Int64.toInt_inj.mp (hr.trans (Option.some.inj h))]
      · refine iff_of_false (by simp [hanswer]) ?_
        rintro ⟨-, m', h, hout⟩
        obtain rfl := Option.some.inj h
        omega
      · exact iff_of_false (by simp [hanswer]) (by simp)
  | none =>
      have hanswer := hoverflow hfits
      have hout := int64?_eq_none_iff.mp hfits
      refine ⟨fun v => ?_, fun s => ?_, ?_⟩
      · refine iff_of_false (by simp [hanswer]) ?_
        rintro ⟨r, -, h⟩
        have hr := int64?_eq_some_iff.mpr (Option.some.inj h).symm
        rw [hfits] at hr
        cases hr
      · constructor
        · intro h
          rw [hanswer] at h
          cases h
          exact ⟨rfl, m, rfl, hout⟩
        · rintro ⟨rfl, -⟩
          exact hanswer
      · exact iff_of_false (by simp [hanswer]) (by simp)

theorem arithmetic_exactly {ints : Int → Int → Option Int} {floats : Float → Float → Float}
    (h : (ints a.toInt b.toInt).bind Number.int64? = Number.int64? m) :
    Exactly (arithmetic heap op ints floats (.int a) (.int b)) op.symbol (some m) := by
  refine exactly_of_int64? (fun r hr => ?_) fun hnone => ?_
  · simp only [arithmetic, numbers?, h, hr]
  · simp only [arithmetic, numbers?, h, hnone]

-- Division by zero is refused before anything is worked out.
theorem exactly_undefined (symbol : String) : Exactly (.error .divideByZero) symbol none := by
  refine ⟨fun v => ?_, fun s => ?_, ?_⟩
  · exact iff_of_false (by simp) (by simp)
  · exact iff_of_false (by simp) (by simp)
  · exact iff_of_true rfl rfl

theorem toInt_ne_zero (hb : b ≠ 0) : b.toInt ≠ 0 := by
  intro h
  exact hb (Int64.toInt_inj.mp h)

theorem divide_exactly (hb : b ≠ 0) :
    Exactly (divide heap (.int a) (.int b)) BinaryOp.divide.symbol
      (some (a.toInt.tdiv b.toInt)) := by
  have hsame : divide heap (.int a) (.int b) =
      arithmetic heap .divide (fun m n => some (m.tdiv n)) (· / ·) (.int a) (.int b) := by
    unfold divide
    split
    · rename_i h
      cases h
      exact absurd rfl hb
    · rfl
  rw [hsame]
  exact arithmetic_exactly rfl

-- Only the quotient of the least integer by minus one has no place among the integers.
theorem tdiv_fits (ha : a.toInt ≠ -2 ^ 63 ∨ b.toInt ≠ -1) :
    -2 ^ 63 ≤ a.toInt.tdiv b.toInt ∧ a.toInt.tdiv b.toInt < 2 ^ 63 := by
  have hlow := a.le_toInt
  have hhigh := a.toInt_lt
  have hquotient : (a.toInt.tdiv b.toInt).natAbs = a.toInt.natAbs / b.toInt.natAbs :=
    Int.natAbs_tdiv a.toInt b.toInt
  by_cases hunit : b.toInt.natAbs = 1
  · rcases (show b.toInt = 1 ∨ b.toInt = -1 by omega) with hone | hone
    · rw [hone, Int.tdiv_one]
      omega
    · rw [hone, Int.tdiv_neg, Int.tdiv_one]
      omega
  · -- Any other divisor at least halves the absolute value.
    have hhalf : a.toInt.natAbs / b.toInt.natAbs ≤ a.toInt.natAbs / 2 := by
      by_cases hzero : b.toInt.natAbs = 0
      · rw [hzero, Nat.div_zero]
        omega
      · exact Nat.div_le_div_left (by omega) (by omega)
    omega

theorem exists_int64? (h : -2 ^ 63 ≤ m ∧ m < 2 ^ 63) : ∃ r, Number.int64? m = some r := by
  cases hfits : Number.int64? m with
  | some r => exact ⟨r, rfl⟩
  | none =>
      have hout := int64?_eq_none_iff.mp hfits
      omega

theorem remainder_eq (hb : b ≠ 0) :
    remainder heap (.int a) (.int b) =
      arithmetic heap .remainder
        (fun m n => (Number.int64? (m.tdiv n)).map fun _ => m.tmod n) Number.remainder
        (.int a) (.int b) := by
  unfold remainder
  split
  · rename_i h
    cases h
    exact absurd rfl hb
  · rfl

theorem remainder_exactly (hb : b ≠ 0) (h : ¬ (a = Int64.minValue ∧ b = -1)) :
    Exactly (remainder heap (.int a) (.int b)) BinaryOp.remainder.symbol
      (some (a.toInt.tmod b.toInt)) := by
  have hquotient : a.toInt ≠ -2 ^ 63 ∨ b.toInt ≠ -1 := by
    by_cases hmin : a.toInt = -2 ^ 63
    · refine .inr fun hone => h ⟨?_, ?_⟩
      · exact Int64.toInt_inj.mp hmin
      · exact Int64.toInt_inj.mp hone
    · exact .inl hmin
  obtain ⟨q, hq⟩ := exists_int64? (tdiv_fits hquotient)
  rw [remainder_eq hb]
  refine arithmetic_exactly ?_
  rw [hq]
  rfl

theorem negative_exactly :
    Exactly (unary heap .negative (.int a)) UnaryOp.negative.symbol (some (-a.toInt)) := by
  refine exactly_of_int64? (fun r hr => ?_) fun hnone => ?_
  · simp only [unary, hr]
  · simp only [unary, hnone]

-- How far a shift goes: the low six bits of the amount.
def shiftAmount (b : Int64) : Nat := (b.toInt % 64).toNat

theorem shiftAmount_lt (b : Int64) : shiftAmount b < 64 := by
  unfold shiftAmount
  omega

theorem toNat_lowBits (b : Int64) : (b &&& 0x3f).toBitVec.toNat = shiftAmount b := by
  have hmask : (0x3f : Int64).toBitVec.toNat = 2 ^ 6 - 1 := rfl
  have hlow : (b &&& 0x3f).toBitVec.toNat = b.toBitVec.toNat % 64 := by
    rw [Int64.toBitVec_and, BitVec.toNat_and, hmask, Nat.and_two_pow_sub_one_eq_mod]
  have hvalue : b.toInt = b.toBitVec.toInt := rfl
  have hcases := BitVec.toInt_eq_toNat_cond b.toBitVec
  unfold shiftAmount
  split at hcases <;> omega

-- So small an amount is its own remainder.
theorem toNat_lowBits_smod (b : Int64) :
    ((b &&& 0x3f).toBitVec.smod 64#64).toNat = shiftAmount b := by
  have hlow := toNat_lowBits b
  have hsmall := shiftAmount_lt b
  have hint : (b &&& 0x3f).toBitVec.toInt = (shiftAmount b : Int) := by
    rw [BitVec.toInt_eq_toNat_of_lt (by omega), hlow]
  have hwidth : (64#64).toInt = 64 := rfl
  have hmod : ((b &&& 0x3f).toBitVec.smod 64#64).toInt = (shiftAmount b : Int) := by
    rw [BitVec.toInt_smod, hint, hwidth, Int.fmod_eq_emod_of_nonneg _ (by omega)]
    omega
  have hcases := BitVec.toInt_eq_toNat_cond ((b &&& 0x3f).toBitVec.smod 64#64)
  split at hcases <;> omega

theorem shiftLeft_toInt (a b : Int64) :
    (a <<< (b &&& 0x3f)).toInt = (a.toInt * 2 ^ shiftAmount b).bmod (2 ^ 64) := by
  have hbits : (a <<< (b &&& 0x3f)).toBitVec = a.toBitVec <<< shiftAmount b := by
    rw [← toNat_lowBits_smod]
    rfl
  have hvalue : (a <<< (b &&& 0x3f)).toInt = (a <<< (b &&& 0x3f)).toBitVec.toInt := rfl
  have hsame : a.toInt = (a.toBitVec.toNat : Int).bmod (2 ^ 64) := BitVec.toInt_eq_toNat_bmod _
  rw [hvalue, hbits, BitVec.toInt_shiftLeft, hsame, Int.bmod_mul_bmod, Nat.shiftLeft_eq,
    Int.natCast_mul, Int.natCast_pow]
  rfl

theorem shiftRight_toInt (a b : Int64) :
    (a >>> (b &&& 0x3f)).toInt = a.toInt.fdiv (2 ^ shiftAmount b) := by
  have hbits : (a >>> (b &&& 0x3f)).toBitVec = a.toBitVec.sshiftRight (shiftAmount b) := by
    rw [← toNat_lowBits_smod]
    rfl
  have hvalue : (a >>> (b &&& 0x3f)).toInt = (a >>> (b &&& 0x3f)).toBitVec.toInt := rfl
  have hpositive : (0 : Int) ≤ 2 ^ shiftAmount b := Int.pow_nonneg (by omega)
  rw [hvalue, hbits, BitVec.toInt_sshiftRight, Int.shiftRight_eq_div_pow,
    Int.fdiv_eq_ediv_of_nonneg _ hpositive, Int.natCast_pow]
  rfl

theorem shiftRightZero_toBitVec (a b : Int64) :
    (a.toUInt64 >>> (b &&& 0x3f).toUInt64).toInt64.toBitVec = a.toBitVec >>> shiftAmount b := by
  have hbits : (a.toUInt64 >>> (b &&& 0x3f).toUInt64).toInt64.toBitVec =
      a.toBitVec >>> ((b &&& 0x3f).toBitVec.toNat % 64) := rfl
  have hsmall := shiftAmount_lt b
  rw [hbits, toNat_lowBits, Nat.mod_eq_of_lt hsmall]

theorem integer?_eq_none_iff (hop : op.isArithmetic = true) :
    op.integer? a.toInt b.toInt = none ↔ (op = .divide ∨ op = .remainder) ∧ b = 0 := by
  have hzero : b.toInt = 0 ↔ b = 0 := Int64.toInt_inj (y := 0)
  cases op <;> simp_all [BinaryOp.integer?, BinaryOp.isArithmetic]

theorem binary_exactly (hop : op.isArithmetic = true)
    (h : ¬ (op = .remainder ∧ a = Int64.minValue ∧ b = -1)) :
    Exactly (binary heap op (.int a) (.int b)) op.symbol (op.integer? a.toInt b.toInt) := by
  cases op with
  | plus | minus | times =>
      simp only [binary, plus, BinaryOp.integer?]
      exact arithmetic_exactly rfl
  | divide =>
      by_cases hb : b = 0
      · subst hb
        exact exactly_undefined _
      · have hexact : BinaryOp.divide.integer? a.toInt b.toInt = some (a.toInt.tdiv b.toInt) :=
          if_neg (toInt_ne_zero hb)
        rw [hexact]
        exact divide_exactly hb
  | remainder =>
      by_cases hb : b = 0
      · subst hb
        exact exactly_undefined _
      · have hexact : BinaryOp.remainder.integer? a.toInt b.toInt = some (a.toInt.tmod b.toInt) :=
          if_neg (toInt_ne_zero hb)
        rw [hexact]
        exact remainder_exactly hb fun hmin => h ⟨rfl, hmin⟩
  | _ => cases hop

-- Arithmetic on integers of 64 bits gives the exact result, or says that it does not fit or that
-- there is none. One remainder is refused though it fits, because its quotient does not. A shift
-- goes as far as the low six bits of the amount say, and drops what leaves the 64 bits.
theorem integer_arithmetic_exact (heap : Heap) (a b : Int64) :
    (∀ op : BinaryOp, op.isArithmetic = true →
      if op = .remainder ∧ a = Int64.minValue ∧ b = -1 then
        binary heap op (.int a) (.int b) = .error (.integerOverflow op.symbol)
      else
        Exactly (binary heap op (.int a) (.int b)) op.symbol (op.integer? a.toInt b.toInt) ∧
          (op.integer? a.toInt b.toInt = none ↔ (op = .divide ∨ op = .remainder) ∧ b = 0)) ∧
      Exactly (unary heap .negative (.int a)) UnaryOp.negative.symbol (some (-a.toInt)) ∧
      (∃ r, binary heap .shiftLeft (.int a) (.int b) = .ok (.int r) ∧
        r.toInt = (a.toInt * 2 ^ shiftAmount b).bmod (2 ^ 64)) ∧
      (∃ r, binary heap .shiftRight (.int a) (.int b) = .ok (.int r) ∧
        r.toInt = a.toInt.fdiv (2 ^ shiftAmount b)) ∧
      ∃ r, binary heap .shiftRightZero (.int a) (.int b) = .ok (.int r) ∧
        r.toBitVec = a.toBitVec >>> shiftAmount b := by
  refine ⟨fun op hop => ?_, negative_exactly, ⟨_, rfl, shiftLeft_toInt a b⟩,
    ⟨_, rfl, shiftRight_toInt a b⟩, ⟨_, rfl, shiftRightZero_toBitVec a b⟩⟩
  split
  next h =>
    obtain ⟨rfl, rfl, rfl⟩ := h
    rfl
  next h => exact ⟨binary_exactly hop h, integer?_eq_none_iff hop⟩

-- The least integer and minus one: their quotient does not fit.
theorem integer_arithmetic_exact_least :
    BinaryOp.divide.isArithmetic = true ∧
      binary .empty .divide (.int Int64.minValue) (.int (-1)) = .error (.integerOverflow "/") := by
  have hdivide := (integer_arithmetic_exact .empty Int64.minValue (-1)).1 .divide rfl
  rw [if_neg (by decide)] at hdivide
  exact ⟨rfl, (hdivide.1.overflow "/").mpr ⟨rfl, 2 ^ 63, rfl, .inr (Int.le_refl _)⟩⟩

-- Their remainder is zero, which would fit, and yet it is refused.
theorem remainder_refused :
    BinaryOp.remainder.integer? Int64.minValue.toInt (-1 : Int64).toInt = some 0 ∧
      binary .empty .remainder (.int Int64.minValue) (.int (-1)) =
        .error (.integerOverflow "%") := ⟨rfl, rfl⟩

end Value

end Stencil
