import Stencil.Proofs.Run.Filtered
import Stencil.Resolve.Strategy

namespace Stencil

-- The bits of an integer with a sign, read without one.
theorem toInt_eq_toUInt64 (n : Int64) :
    n.toInt = if 2 * n.toUInt64.toNat < 2 ^ 64 then (n.toUInt64.toNat : Int)
      else n.toUInt64.toNat - 2 ^ 64 := by
  rw [← Int64.toInt_toBitVec, BitVec.toInt_eq_toNat_cond]
  rfl

namespace Resolve

-- The difference without a sign wraps around, and so comes out as it should.
theorem toNat_distance (a b : Int64) : (distance a b).toNat = (a.toInt - b.toInt).natAbs := by
  have ha := toInt_eq_toUInt64 a
  have hb := toInt_eq_toUInt64 b
  have hboundA := a.toUInt64.toNat_lt
  have hboundB := b.toUInt64.toNat_lt
  unfold distance
  by_cases hab : a < b
  · have hlt := Int64.lt_iff_toInt_lt.mp hab
    rw [if_pos hab, UInt64.toNat_sub]
    split at ha <;> split at hb <;> omega
  · have hle : b.toInt ≤ a.toInt := by
      rw [Int64.lt_iff_toInt_lt] at hab
      omega
    rw [if_neg hab, UInt64.toNat_sub]
    split at ha <;> split at hb <;> omega

theorem toInt_withSign (n : UInt64) :
    (withSign n).toInt = min (n.toNat : Int) Int64.maxValue.toInt := by
  have hn : n.toInt64.toInt = if 2 * n.toNat < 2 ^ 64 then (n.toNat : Int)
      else n.toNat - 2 ^ 64 := toInt_eq_toUInt64 n.toInt64
  have hmax : Int64.maxValue.toInt = 2 ^ 63 - 1 := rfl
  have hbound : Int64.maxValue.toUInt64.toNat = 2 ^ 63 - 1 := rfl
  unfold withSign
  by_cases hle : n ≤ Int64.maxValue.toUInt64
  · rw [if_pos hle]
    rw [UInt64.le_iff_toNat_le] at hle
    rw [hn, if_pos (by omega)]
    omega
  · rw [if_neg hle]
    rw [UInt64.le_iff_toNat_le] at hle
    omega

end Resolve

namespace Iterator

-- How many integers there are from the first to the last.
def rangeCount (first last : Int64) : Nat := (last.toInt - first.toInt).natAbs + 1

-- The integer that is reached after `i` steps of one toward the last.
def rangeAt (first last : Int64) (i : Nat) : Int :=
  if first ≤ last then first.toInt + i else first.toInt - i

theorem toInt_rangeSize (first last : Int64) :
    (Resolve.rangeSize first last).toInt =
      min (rangeCount first last : Int) Int64.maxValue.toInt := by
  have hmax : Int64.maxValue.toInt = 2 ^ 63 - 1 := rfl
  rw [Resolve.rangeSize, toInt_advance, Resolve.toInt_withSign, Resolve.toNat_distance, rangeCount]
  omega

theorem length_integers (first last : Int64) :
    (Value.integers first last).length = rangeCount first last := by
  rw [Value.integers, List.length_map, List.length_range, rangeCount]

theorem rangeAt_zero (first last : Int64) : rangeAt first last 0 = first.toInt := by
  unfold rangeAt
  split <;> omega

theorem rangeAt_last (first last : Int64) :
    rangeAt first last (last.toInt - first.toInt).natAbs = last.toInt := by
  unfold rangeAt
  by_cases hup : first ≤ last
  · have hle := Int64.le_iff_toInt_le.mp hup
    rw [if_pos hup]
    omega
  · rw [if_neg hup]
    rw [Int64.le_iff_toInt_le] at hup
    omega

-- None of the integers on the way is out of range.
theorem toInt_ofInt_rangeAt {first last : Int64} {i : Nat} (hi : i < rangeCount first last) :
    (Int64.ofInt (rangeAt first last i)).toInt = rangeAt first last i := by
  have hfirst := Int64.le_toInt first
  have hfirst' := Int64.toInt_lt first
  have hlast := Int64.le_toInt last
  have hlast' := Int64.toInt_lt last
  unfold rangeCount at hi
  unfold rangeAt
  by_cases hup : first ≤ last
  · have hle := Int64.le_iff_toInt_le.mp hup
    rw [if_pos hup]
    apply Int64.toInt_ofInt_of_le
    · omega
    · omega
  · rw [if_neg hup]
    rw [Int64.le_iff_toInt_le] at hup
    apply Int64.toInt_ofInt_of_le
    · omega
    · omega

theorem take_integers (first last : Int64) (n : Nat) :
    ∃ ns : List Int64, (Value.integers first last).take n = ns.map Value.int ∧
      ns.map Int64.toInt =
        (List.range (min n (rangeCount first last))).map (rangeAt first last) := by
  refine ⟨(List.range (min n (rangeCount first last))).map fun i =>
    Int64.ofInt (rangeAt first last i), ?_, ?_⟩
  · rw [Value.integers, ← List.map_take, List.take_range, List.map_map]
    rfl
  · rw [List.map_map]
    apply List.map_congr_left
    intro i hi
    have hi := List.mem_range.mp hi
    exact toInt_ofInt_rangeAt (by omega)

theorem getElem_integers {first last : Int64} {i : Nat}
    (hi : i < (Value.integers first last).length) :
    (Value.integers first last)[i] = .int (Int64.ofInt (rangeAt first last i)) := by
  simp only [Value.integers, List.getElem_map, List.getElem_range]
  rfl

def Call.isNext : Call → Bool
  | .next => true
  | _ => false

-- An iterator that gave out the first of some items, and the number of the last of them.
structure GaveOut (items : List Value) (taken : Nat) (it : Iterator) (cursor : Int64) : Prop where
  le : taken ≤ items.length
  rest : Yields it (items.drop taken)
  cursor_eq : it.cursor = .inl cursor
  toInt_cursor : cursor.toInt = min (taken - 1 : Int) Int64.maxValue.toInt

namespace GaveOut

variable {items : List Value} {taken : Nat} {it : Iterator} {cursor : Int64}
  (ask : Method → Value → WorldM Fault Value) (fuel : Nat) (w : World)

theorem index_eq (h : GaveOut items taken it cursor) : it.index w.heap = cursor := by
  rw [index, indexWithin, h.cursor_eq]

theorem hasNext_eq (h : GaveOut items taken it cursor) :
    hasNext ask (fuel + 1) it w = ⟨.ok (decide (taken < items.length)), it, w⟩ := by
  have hmore : (!(items.drop taken).isEmpty) = decide (taken < items.length) := by
    rw [Bool.eq_iff_iff, Bool.not_eq_true', List.isEmpty_eq_false_iff, ne_eq, List.drop_eq_nil_iff,
      decide_eq_true_eq, Nat.not_le]
  rw [h.rest.hasNext_eq ask w fuel, hmore]

theorem next_eq (h : GaveOut items taken it cursor) (hlt : taken < items.length) :
    ∃ it', next ask (fuel + 1) it w = ⟨.ok items[taken], it', w⟩ ∧
      GaveOut items (taken + 1) it' (advance cursor) := by
  have hrest := h.rest
  rw [List.drop_eq_getElem_cons hlt] at hrest
  obtain ⟨it', hnext, hrest', hcursor'⟩ := hrest.next_eq ask w h.cursor_eq fuel
  refine ⟨it', hnext, hlt, hrest', hcursor', ?_⟩
  rw [toInt_advance, h.toInt_cursor]
  push_cast
  omega

theorem next_end (h : GaveOut items taken it cursor) (hend : taken = items.length) :
    next ask (fuel + 1) it w = ⟨.error (.raised .noSuchElement), it, w⟩ := by
  have hrest := h.rest
  rw [hend, List.drop_length] at hrest
  cases hrest <;> rfl

end GaveOut

-- A series of calls by which the first of the items were given out, one after the other.
structure Walks (items : List Value) (w : World) (taken : Nat) (s : Series) : Prop where
  world : s.world = w
  returned : returned s.answers = items.take taken
  gaveOut : ∃ cursor, GaveOut items taken s.iter cursor

namespace Walks

variable {items : List Value} {w : World} {taken : Nat} {s : Series}
  (ask : Method → Value → WorldM Fault Value) (fuel : Nat)

-- Asking for the next item takes one of them, if there is one left, and nothing else does.
theorem call (h : Walks items w taken s) (call : Call) :
    Walks items w (min (taken + if call.isNext then 1 else 0) items.length)
      (s.call ask (fuel + 1) call) := by
  obtain ⟨answers, it, world⟩ := s
  obtain ⟨rfl, hreturned, cursor, hgave⟩ := h
  have hle := hgave.le
  cases call with
  | hasNext =>
      have hasked := hgave.hasNext_eq ask fuel world
      simp only [Series.call, Call.pull, hasked, Call.isNext, Bool.false_eq_true, if_false,
        Nat.add_zero, Nat.min_eq_left hle]
      exact ⟨rfl, by rw [returned_append, hreturned]; exact List.append_nil _, cursor, hgave⟩
  | index =>
      simp only [Series.call, Call.pull, Call.isNext, Bool.false_eq_true, if_false, Nat.add_zero,
        Nat.min_eq_left hle]
      exact ⟨rfl, by rw [returned_append, hreturned]; exact List.append_nil _, cursor, hgave⟩
  | next =>
      by_cases hlt : taken < items.length
      · obtain ⟨it', hnext, hgave'⟩ := hgave.next_eq ask fuel world hlt
        simp only [Series.call, Call.pull, hnext, Call.isNext, if_true, Nat.min_eq_left hlt]
        refine ⟨rfl, ?_, advance cursor, hgave'⟩
        rw [returned_append, hreturned, List.take_succ_eq_append_getElem hlt]
        rfl
      · have hend : taken = items.length := by omega
        have hnext := hgave.next_end ask fuel world hend
        have hmin : min (taken + 1) items.length = taken := by omega
        simp only [Series.call, Call.pull, hnext, Call.isNext, if_true, hmin]
        exact ⟨rfl, by rw [returned_append, hreturned]; exact List.append_nil _, cursor, hgave⟩

theorem calls (h : Walks items w taken s) (calls : List Call) :
    Walks items w (min (taken + calls.countP Call.isNext) items.length)
      (s.calls ask (fuel + 1) calls) := by
  induction calls generalizing taken s with
  | nil =>
      obtain ⟨cursor, hgave⟩ := h.gaveOut
      rw [List.countP_nil, Nat.add_zero, Nat.min_eq_left hgave.le]
      exact h
  | cons call rest ih =>
      have hrest := ih (h.call ask fuel call)
      have htaken : min (min (taken + if call.isNext then 1 else 0) items.length +
          rest.countP Call.isNext) items.length =
            min (taken + (call :: rest).countP Call.isNext) items.length := by
        rw [List.countP_cons]
        omega
      rw [htaken] at hrest
      exact hrest

end Walks

-- However it is asked, an iterator over a range gives out the integers from the first to the last,
-- one after the other, and tells at any time whether there are more and how many there were. The
-- range itself tells their number.
theorem range_exact (ask : Method → Value → WorldM Fault Value) (fuel : Nat) (w : World)
    (first last : Int64) :
    let count := (last.toInt - first.toInt).natAbs + 1
    (∀ calls : List Call,
      let s := Series.calls ask (fuel + 1) ⟨[], .ofRange first last, w⟩ calls
      let taken := min (calls.countP Call.isNext) count
      s.world = w ∧
      (∃ ns : List Int64, returned s.answers = ns.map Value.int ∧
        ns.map Int64.toInt = (List.range taken).map (rangeAt first last)) ∧
      (taken < count → ∃ n it, n.toInt = rangeAt first last taken ∧
        Call.next.pull ask (fuel + 1) s.iter w = ⟨.ok (.item (.int n)), it, w⟩) ∧
      (taken = count → Call.next.pull ask (fuel + 1) s.iter w =
        ⟨.error (.raised .noSuchElement), s.iter, w⟩) ∧
      Call.hasNext.pull ask (fuel + 1) s.iter w =
        ⟨.ok (.more (decide (taken < count))), s.iter, w⟩ ∧
      ∃ n, n.toInt = min (taken - 1 : Int) Int64.maxValue.toInt ∧
        Call.index.pull ask (fuel + 1) s.iter w = ⟨.ok (.number n), s.iter, w⟩) ∧
    rangeAt first last 0 = first.toInt ∧
    rangeAt first last (count - 1) = last.toInt ∧
    ∃ n, n.toInt = min (count : Int) Int64.maxValue.toInt ∧
      Resolve.readRange w.heap (.range first last) (.str "size") = .ok (.int n) := by
  intro count
  have hcount : (Value.integers first last).length = count := length_integers first last
  refine ⟨fun calls => ?_, rangeAt_zero first last, rangeAt_last first last, _,
    toInt_rangeSize first last, rfl⟩
  intro s taken
  have hstart : Walks (Value.integers first last) w 0 ⟨[], .ofRange first last, w⟩ :=
    ⟨rfl, rfl, -1, Nat.zero_le _, yields_range first last (-1), rfl, rfl⟩
  have hwalks : Walks (Value.integers first last) w taken s := by
    have hcalls := hstart.calls ask fuel calls
    rwa [Nat.zero_add, hcount] at hcalls
  obtain ⟨hworld, hreturned, cursor, hgave⟩ := hwalks
  refine ⟨hworld, ?_, ?_, ?_, ?_, cursor, hgave.toInt_cursor, ?_⟩
  · obtain ⟨ns, hns, hexact⟩ := take_integers first last taken
    have htaken : min taken (rangeCount first last) = taken :=
      Nat.min_eq_left (Nat.min_le_right _ _)
    rw [htaken] at hexact
    exact ⟨ns, hreturned.trans hns, hexact⟩
  · intro hlt
    obtain ⟨it, hnext, -⟩ := hgave.next_eq ask fuel w (hcount.symm ▸ hlt)
    rw [getElem_integers] at hnext
    refine ⟨_, it, toInt_ofInt_rangeAt hlt, ?_⟩
    rw [Call.pull, hnext]
    rfl
  · intro hend
    rw [Call.pull, hgave.next_end ask fuel w (hend.trans hcount.symm)]
    rfl
  · rw [Call.pull, hgave.hasNext_eq ask fuel w, hcount]
    rfl
  · rw [Call.pull, hgave.index_eq w]

end Iterator

end Stencil
