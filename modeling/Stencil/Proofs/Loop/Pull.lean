import Mathlib.Algebra.Order.Ring.Int
import Stencil.Run.Pull

namespace Stencil

-- The integers from the first to the last, up or down.
def Value.integers (first last : Int64) : List Value :=
  (List.range ((last.toInt - first.toInt).natAbs + 1)).map fun i : Nat =>
    .int (Int64.ofInt (if first ≤ last then first.toInt + i else first.toInt - i))

-- What a loop goes through: the elements of a list, the keys of a map, the characters of a string,
-- the bytes of a byte string and the integers of a range.
def Value.elements (heap : Heap) : Value → List Value
  | .list ref => heap.items ref
  | .map ref => (heap.entries ref).map fun (key, _) => .str key
  | .str s => s.toList.map fun c => .str (String.singleton c)
  | .bytes bs => bs.map fun b => .int (Int64.ofInt b.toNat)
  | .range first last => Value.integers first last
  | _ => []

-- Values that hold their elements, and `null`.
def Value.isCollection : Value → Bool
  | .null | .list _ | .map _ | .str _ | .bytes _ | .range _ _ => true
  | _ => false

namespace Iterator

-- The source has these items left.
inductive Yields : Iterator → List Value → Prop where
  | items {rest cursor} : Yields (.items rest cursor) rest
  | ended {last cursor} : Yields (.range none last cursor) []
  | range {current last cursor rest}
      (h : Yields (.range (stepToward current last) last (advance cursor)) rest) :
      Yields (.range (some current) last cursor) (.int current :: rest)

section Range

theorem toInt_succ {a b : Int64} (h : a < b) : (a + 1).toInt = a.toInt + 1 := by
  have hab : a.toInt < b.toInt := Int64.lt_iff_toInt_lt.mp h
  have hlow := Int64.le_toInt a
  have hhigh := Int64.toInt_lt b
  rw [Int64.toInt_add, Int.bmod_eq_of_le]
  · rfl
  · have : (1 : Int64).toInt = 1 := rfl
    omega
  · have : (1 : Int64).toInt = 1 := rfl
    omega

theorem toInt_pred {a b : Int64} (h : b < a) : (a - 1).toInt = a.toInt - 1 := by
  have hab : b.toInt < a.toInt := Int64.lt_iff_toInt_lt.mp h
  have hlow := Int64.le_toInt b
  have hhigh := Int64.toInt_lt a
  rw [Int64.toInt_sub, Int.bmod_eq_of_le]
  · rfl
  · have : (1 : Int64).toInt = 1 := rfl
    omega
  · have : (1 : Int64).toInt = 1 := rfl
    omega

-- A step toward another integer never leaves the range of integers.
theorem stepToward_self (a : Int64) : stepToward a a = none := by simp [stepToward]

theorem stepToward_up {a b : Int64} (h : a < b) : stepToward a b = some (a + 1) := by
  have hmax : a ≠ Int64.maxValue := by
    rintro rfl
    have hab : Int64.maxValue.toInt < b.toInt := Int64.lt_iff_toInt_lt.mp h
    have hhigh := Int64.toInt_lt b
    have hvalue : Int64.maxValue.toInt = 2 ^ 63 - 1 := rfl
    omega
  rw [stepToward, if_pos h, succ?, if_neg hmax]

theorem stepToward_down {a b : Int64} (h : b < a) : stepToward a b = some (a - 1) := by
  have hba : b.toInt < a.toInt := Int64.lt_iff_toInt_lt.mp h
  have hup : ¬ a < b := by
    rw [Int64.lt_iff_toInt_lt]
    omega
  have hmin : a ≠ Int64.minValue := by
    rintro rfl
    have hlow := Int64.le_toInt b
    have hvalue : Int64.minValue.toInt = -2 ^ 63 := rfl
    omega
  rw [stepToward, if_neg hup, if_pos h, pred?, if_neg hmin]

theorem integers_self (a : Int64) : Value.integers a a = [.int a] := by
  simp [Value.integers]

theorem integers_up {first last : Int64} (h : first < last) :
    Value.integers first last = .int first :: Value.integers (first + 1) last := by
  have hsucc := toInt_succ h
  have hlt := Int64.lt_iff_toInt_lt.mp h
  have hle : first ≤ last := Int64.le_iff_toInt_le.mpr (by omega)
  have hle' : first + 1 ≤ last := Int64.le_iff_toInt_le.mpr (by omega)
  have hcount : (last.toInt - first.toInt).natAbs =
      (last.toInt - (first + 1).toInt).natAbs + 1 := by omega
  simp only [Value.integers, hcount, hle, hle', if_true]
  rw [List.range_succ_eq_map, List.map_cons, List.map_map]
  refine congrArg₂ List.cons (by simp) (List.map_congr_left fun i _ => ?_)
  simp only [Function.comp_apply, hsucc]
  congr 2
  push_cast
  omega

theorem integers_down {first last : Int64} (h : last < first) :
    Value.integers first last = .int first :: Value.integers (first - 1) last := by
  have hpred := toInt_pred h
  have hlt := Int64.lt_iff_toInt_lt.mp h
  have hnot : ¬ first ≤ last := fun hle => by
    have := Int64.le_iff_toInt_le.mp hle
    omega
  have hcount : (last.toInt - first.toInt).natAbs =
      (last.toInt - (first - 1).toInt).natAbs + 1 := by omega
  simp only [Value.integers, hcount, hnot, if_false]
  rw [List.range_succ_eq_map, List.map_cons, List.map_map]
  refine congrArg₂ List.cons (by simp) (List.map_congr_left fun i hi => ?_)
  simp only [Function.comp_apply, hpred]
  congr 2
  -- One step before the end the rest counts as going up, by nothing.
  split
  next hle =>
    have := Int64.le_iff_toInt_le.mp hle
    have := List.mem_range.mp hi
    push_cast
    omega
  next =>
    push_cast
    omega

theorem yields_range (first last cursor : Int64) :
    Yields (.range (some first) last cursor) (Value.integers first last) := by
  induction hn : (last.toInt - first.toInt).natAbs generalizing first cursor with
  | zero =>
      obtain rfl : first = last := Int64.toInt_inj.mp (by omega)
      rw [integers_self]
      exact .range (stepToward_self first ▸ .ended)
  | succ n ih =>
      by_cases hup : first < last
      · have hsucc := toInt_succ hup
        have hlt := Int64.lt_iff_toInt_lt.mp hup
        rw [integers_up hup]
        exact .range (stepToward_up hup ▸ ih (first + 1) _ (by omega))
      · have hdown : last < first := by
          rw [Int64.lt_iff_toInt_lt] at hup ⊢
          omega
        have hpred := toInt_pred hdown
        have hlt := Int64.lt_iff_toInt_lt.mp hdown
        rw [integers_down hdown]
        exact .range (stepToward_down hdown ▸ ih (first - 1) _ (by omega))

end Range

theorem yields_ofValue {heap : Heap} {v : Value} {it : Iterator} (hv : v.isCollection = true)
    (hit : ofValue heap v = .ok (some it)) :
    Yields it (v.elements heap) ∧ it.cursor = .inl (-1) := by
  cases v with
  | list ref | map ref | str s | bytes bs =>
      cases hit
      exact ⟨.items, rfl⟩
  | range first last =>
      cases hit
      exact ⟨yields_range first last (-1), rfl⟩
  | null => cases hit
  | _ => cases hv

theorem exists_ofValue (heap : Heap) {v : Value} (hv : v.isCollection = true)
    (hnull : v.isNull = false) : ∃ it, ofValue heap v = .ok (some it) := by
  cases v with
  | list ref | map ref | str s | bytes bs | range first last => exact ⟨_, rfl⟩
  | null => cases hnull
  | _ => cases hv

section Source

variable (ask : Method → Value → WorldM Fault Value) {it : Iterator} (w : World)

theorem Yields.hasNext_eq {rest : List Value} (h : Yields it rest) (fuel : Nat) :
    hasNext ask (fuel + 1) it w = ⟨.ok !rest.isEmpty, it, w⟩ := by
  cases h <;> rfl

theorem Yields.next_eq {item : Value} {rest : List Value} (h : Yields it (item :: rest))
    {cursor : Int64} (hcursor : it.cursor = .inl cursor) (fuel : Nat) :
    ∃ it', next ask (fuel + 1) it w = ⟨.ok item, it', w⟩ ∧ Yields it' rest ∧
      it'.cursor = .inl (advance cursor) := by
  cases h with
  | items =>
      cases hcursor
      exact ⟨_, rfl, .items, rfl⟩
  | range h =>
      cases hcursor
      exact ⟨_, rfl, h, rfl⟩

end Source

-- A source without a filter, or a filter that has to find its next item, or one that has found it.
-- It is to give out the items in `later`; the source has at most `n` left, all of them fair.
inductive Stands (fair : Value → Prop) (keeps : Value → Bool) (n : Nat) :
    Option Method → Iterator → List Value → Int64 → Prop where
  | plain {it later cursor} (h : Yields it later) (hcursor : it.cursor = .inl cursor) :
      Stands fair keeps n none it later cursor
  | waiting {source rest method cursor own} (h : Yields source rest)
      (hcursor : source.cursor = .inl own) (hrest : rest.length ≤ n) (hfair : ∀ v ∈ rest, fair v) :
      Stands fair keeps n (some method) (.filtered source method none cursor) (rest.filter keeps)
        cursor
  | found {source rest method item cursor own} (h : Yields source rest)
      (hcursor : source.cursor = .inl own) (hrest : rest.length ≤ n) (hfair : ∀ v ∈ rest, fair v) :
      Stands fair keeps n (some method) (.filtered source method (some item) cursor)
        (item :: rest.filter keeps) cursor

-- The next item need not be looked for.
def Ready (it : Iterator) : Prop := ∀ source method cursor, it ≠ .filtered source method none cursor

theorem Yields.ready {it : Iterator} {rest : List Value} (h : Yields it rest) : Ready it := by
  cases h <;> exact fun _ _ _ heq => nomatch heq

theorem Ready.found {source : Iterator} {method : Method} {item : Value} {cursor : Int64} :
    Ready (.filtered source method (some item) cursor) :=
  fun _ _ _ heq => nomatch heq

section Standing

variable {ask : Method → Value → WorldM Fault Value} {fair : Value → Prop} {keeps : Value → Bool}
  (good : World → Prop) {n : Nat} {method : Option Method} {it : Iterator} {w : World}
  {later : List Value} {cursor : Int64}

-- The filter goes on until an item is kept or there are no more. The fuel is enough for all.
theorem Yields.hasNext_filtered {m : Method}
    (hask : ∀ item w, fair item → good w → ∃ verdict w', ask m item w = (.ok verdict, w') ∧
      verdict.isTruthy w'.heap = keeps item ∧ good w')
    {source : Iterator} {rest : List Value} (h : Yields source rest) {own : Int64}
    (hcursor : source.cursor = .inl own) (hrest : rest.length ≤ n) (hfair : ∀ v ∈ rest, fair v)
    (hw : good w) {fuel : Nat} (hfuel : rest.length + 2 ≤ fuel) :
    ∃ it' w', hasNext ask fuel (.filtered source m none cursor) w =
        ⟨.ok !(rest.filter keeps).isEmpty, it', w'⟩ ∧
      Stands fair keeps n (some m) it' (rest.filter keeps) cursor ∧
      (rest.filter keeps ≠ [] → Ready it') ∧ good w' := by
  induction rest generalizing source own w fuel with
  | nil =>
      obtain ⟨fuel, rfl⟩ : ∃ f, fuel = f + 2 := ⟨fuel - 2, by simp at hfuel; omega⟩
      refine ⟨.filtered source m none cursor, w, ?_, .waiting h hcursor hrest hfair,
        fun hne => (hne rfl).elim, hw⟩
      rw [Iterator.hasNext, h.hasNext_eq ask w fuel]
      rfl
  | cons item rest ih =>
      obtain ⟨fuel, rfl⟩ : ∃ f, fuel = f + 2 := ⟨fuel - 2, by simp at hfuel; omega⟩
      simp only [List.length_cons] at hrest hfuel
      obtain ⟨hitem, hothers⟩ := List.forall_mem_cons.mp hfair
      obtain ⟨source', hnext, hsource', hcursor'⟩ := h.next_eq ask w hcursor fuel
      obtain ⟨verdict, w', hasked, htruth, hw'⟩ := hask item w hitem hw
      rw [Iterator.hasNext, h.hasNext_eq ask w fuel]
      simp only [List.isEmpty_cons, Bool.not_false, hnext, hasked, htruth]
      by_cases hkeeps : keeps item = true
      · rw [if_pos hkeeps, List.filter_cons_of_pos hkeeps]
        exact ⟨_, w', rfl, .found hsource' hcursor' (by omega) hothers,
          fun _ => Ready.found, hw'⟩
      · rw [if_neg hkeeps, List.filter_cons_of_neg hkeeps]
        exact ih hsource' hcursor' (by omega) hothers hw' (by omega)

theorem Stands.hasNext_eq
    (hask : ∀ m, method = some m → ∀ item w, fair item → good w →
      ∃ verdict w', ask m item w = (.ok verdict, w') ∧
        verdict.isTruthy w'.heap = keeps item ∧ good w')
    (h : Stands fair keeps n method it later cursor) (hw : good w) {fuel : Nat}
    (hfuel : n + 2 ≤ fuel) :
    ∃ it' w', hasNext ask fuel it w = ⟨.ok !later.isEmpty, it', w'⟩ ∧
      Stands fair keeps n method it' later cursor ∧ (later ≠ [] → Ready it') ∧ good w' := by
  cases h with
  | plain h hcursor =>
      obtain ⟨fuel, rfl⟩ : ∃ f, fuel = f + 1 := ⟨fuel - 1, by omega⟩
      exact ⟨it, w, h.hasNext_eq ask w fuel, .plain h hcursor, fun _ => h.ready, hw⟩
  | waiting h hcursor hrest hfair =>
      exact h.hasNext_filtered good (hask _ rfl) hcursor hrest hfair hw (by omega)
  | found h hcursor hrest hfair =>
      obtain ⟨fuel, rfl⟩ : ∃ f, fuel = f + 1 := ⟨fuel - 1, by omega⟩
      exact ⟨_, w, rfl, .found h hcursor hrest hfair, fun _ => Ready.found, hw⟩

variable (ask w) in
theorem Stands.next_eq {item : Value} (h : Stands fair keeps n method it (item :: later) cursor)
    (hready : Ready it) (fuel : Nat) :
    ∃ it', next ask (fuel + 1) it w = ⟨.ok item, it', w⟩ ∧
      Stands fair keeps n method it' later (advance cursor) := by
  generalize hall : item :: later = all at h
  cases h with
  | plain h hcursor =>
      subst hall
      obtain ⟨it', hnext, h', hcursor'⟩ := h.next_eq ask w hcursor fuel
      exact ⟨it', hnext, .plain h' hcursor'⟩
  | waiting h hcursor hrest hfair => exact absurd rfl (hready _ _ _)
  | found h hcursor hrest hfair =>
      obtain ⟨rfl, rfl⟩ := List.cons.inj hall
      exact ⟨_, rfl, .waiting h hcursor hrest hfair⟩

theorem Stands.cursor_eq (h : Stands fair keeps n method it later cursor) :
    it.cursor = .inl cursor := by
  cases h with
  | plain _ hcursor => exact hcursor
  | waiting => rfl
  | found => rfl

end Standing

end Iterator

end Stencil
