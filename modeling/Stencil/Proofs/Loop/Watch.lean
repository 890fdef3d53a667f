import Stencil.Proofs.Loop.Eager

namespace Stencil

open Resolve

-- The iterator that drives a loop is known to no run. Its cell is put aside on the first side, and
-- there is none on the second.
def Iterator.aside (host : Host) (ref : Nat) (state : Iterator → Prop) :
    Aside host.hierarchy.known where
  left c := c = .iter ref
  right _ := False
  holds h _ := ∃ it, h.iters[ref]? = some it ∧ state it
  builtin := host.hierarchy.builtin
  allocated_left := by
    rintro h h' c ⟨it, hit, -⟩ rfl
    exact (Array.getElem?_eq_some_iff.mp hit).1
  allocated_right _ h := h.elim
  kept := by
    rintro h h' h₁ h₁' hleft - ⟨it, hit, hstate⟩
    have hsame : (h₁.iters[ref]?).map Content.iter = (h.iters[ref]?).map Content.iter :=
      hleft (.iter ref) rfl
    rw [hit] at hsame
    obtain ⟨it', hit', heq⟩ := Option.map_eq_some_iff.mp hsame
    cases heq
    exact ⟨it, hit', hstate⟩

namespace Loop

section

variable {host : Host} (hhost : host.Uniform) (ref : Nat) (base : Renaming)

def driven (state : Iterator → Prop) : Setting host.hierarchy.known :=
  host.setting hhost (Iterator.aside host ref state) base

end

variable {host : Host} {hhost : host.Uniform} {ref : Nat} {base : Renaming}
  {state state' : Iterator → Prop} {ρ : Renaming} {w v : World}

theorem iter_of_driven (hw : w.Paired (driven hhost ref base state) ρ v) :
    ∃ it, w.heap.iters[ref]? = some it ∧ state it :=
  hw.heap.holds

theorem driven_mono (hw : w.Paired (driven hhost ref base state) ρ v)
    (himp : ∀ it, state it → state' it) : w.Paired (driven hhost ref base state') ρ v := by
  obtain ⟨it, hit, hstate⟩ := iter_of_driven hw
  exact ⟨hw.since, ⟨hw.heap.alike, hw.heap.apart, hw.heap.known, it, hit, himp it hstate⟩,
    hw.strategies, hw.sink⟩

-- Nothing but the cell of the loop is filled anew.
theorem driven_put (hw : w.Paired (driven hhost ref base state) ρ v) {it : Iterator}
    (hit : state' it) :
    (w.setHeap (w.heap.setIter ref it)).Paired (driven hhost ref base state') ρ v := by
  obtain ⟨old, hold, -⟩ := iter_of_driven hw
  have hput := Heap.put_setIter (h := w.heap) (Array.getElem?_eq_some_iff.mp hold).1 it
  have hother {c d : Cell} (hcd : ρ.cells c d) :
      (w.heap.setIter ref it).get? c = w.heap.get? c :=
    hput.there c (hw.heap.apart hcd).1
  refine ⟨hw.since, ⟨?_, hw.heap.apart, ?_, it, ?_, hit⟩, hw.strategies, hw.sink⟩
  · intro c d hcd
    obtain ⟨x, y, hx, hy, hxy⟩ := hw.heap.alike hcd
    exact ⟨x, y, (hother hcd).trans hx, hy, hxy⟩
  · intro c d hcd x hx
    exact hw.heap.known hcd x ((hother hcd).symm.trans hx)
  · have hbound := (Array.getElem?_eq_some_iff.mp hold).1
    change (w.heap.setIter ref it).iters[ref]? = some it
    simp [Heap.setIter, hbound]

section Pulling

variable {ask : Method → Value → WorldM Fault Value} {fair : Value → Prop}
  {keeps : Value → Bool} {n steps : Nat} {method : Option Method} {later : List Value}
  {cursor : Int64}

-- The method of the loop answers as it should, and both sides still belong together.
def Calm (hhost : host.Uniform) (ref : Nat) (base : Renaming)
    (ask : Method → Value → WorldM Fault Value) (fair : Value → Prop) (keeps : Value → Bool)
    (method : Option Method) : Prop :=
  ∀ m, method = some m → ∀ item, fair item → ∀ state ρ w v,
    w.Paired (driven hhost ref base state) ρ v →
      ∃ verdict w', ask m item w = (.ok verdict, w') ∧ verdict.isTruthy w'.heap = keeps item ∧
        w'.Paired (driven hhost ref base state) ρ v

def standing (fair : Value → Prop) (keeps : Value → Bool) (n : Nat) (method : Option Method)
    (later : List Value) (cursor : Int64) (it : Iterator) : Prop :=
  Iterator.Stands fair keeps n method it later cursor

def ready (fair : Value → Prop) (keeps : Value → Bool) (n : Nat) (method : Option Method)
    (later : List Value) (cursor : Int64) (it : Iterator) : Prop :=
  Iterator.Stands fair keeps n method it later cursor ∧ (later ≠ [] → it.Ready)

theorem hasNextIn_driven (hcalm : Calm hhost ref base ask fair keeps method)
    (hsteps : n + 3 ≤ steps)
    (hw : w.Paired (driven hhost ref base (standing fair keeps n method later cursor)) ρ v) :
    ∃ w', Iterator.hasNextIn ask steps ref w = (.ok !later.isEmpty, w') ∧
      w'.Paired (driven hhost ref base (ready fair keeps n method later cursor)) ρ v := by
  obtain ⟨it, hit, hstands⟩ := iter_of_driven hw
  obtain ⟨steps, rfl⟩ : ∃ s, steps = s + 1 := ⟨steps - 1, by omega⟩
  obtain ⟨it', w', hasked, hstands', hready, hw'⟩ := hstands.hasNext_eq
    (fun w => w.Paired (driven hhost ref base (standing fair keeps n method later cursor)) ρ v)
    (fun m hm item w hitem hw => hcalm m hm item hitem _ ρ w v hw) hw
    (show n + 2 ≤ steps by omega)
  refine ⟨w'.setHeap (w'.heap.setIter ref it'), ?_, driven_put hw' ⟨hstands', hready⟩⟩
  simp only [Iterator.hasNextIn, Iterator.hasNext, hit, hasked, Iterator.Pulled.store]

variable (ask) in
theorem nextIn_driven {item : Value} (hsteps : 2 ≤ steps)
    (hw : w.Paired (driven hhost ref base (ready fair keeps n method (item :: later) cursor))
      ρ v) :
    ∃ w', Iterator.nextIn ask steps ref w = (.ok item, w') ∧
      w'.Paired
        (driven hhost ref base (standing fair keeps n method later (Iterator.advance cursor)))
        ρ v := by
  obtain ⟨it, hit, hstands, hready⟩ := iter_of_driven hw
  have hread : ∃ it', Iterator.next ask (steps - 1) it w = ⟨.ok item, it', w⟩ ∧
      Iterator.Stands fair keeps n method it' later (Iterator.advance cursor) := by
    obtain ⟨s, hs⟩ : ∃ s, steps - 1 = s + 1 := ⟨steps - 2, by omega⟩
    rw [hs]
    exact hstands.next_eq ask w (hready (by simp)) s
  obtain ⟨it', hread, hstands'⟩ := hread
  obtain ⟨steps, rfl⟩ : ∃ s, steps = s + 1 := ⟨steps - 1, by omega⟩
  rw [Nat.add_sub_cancel] at hread
  refine ⟨w.setHeap (w.heap.setIter ref it'), ?_, driven_put hw hstands'⟩
  simp only [Iterator.nextIn, Iterator.next, hit, hread, Iterator.Pulled.store]

theorem index_driven
    (hw : w.Paired (driven hhost ref base (standing fair keeps n method later cursor)) ρ v) :
    Iterator.index w.heap (.shared ref) = cursor := by
  obtain ⟨it, hit, hstands⟩ := iter_of_driven hw
  have hdrives : Iterator.Drives w.heap 1 (.shared ref) cursor :=
    .through rfl hit (.own hstands.cursor_eq)
  exact hdrives.indexWithin_eq (by omega)

end Pulling

section Counting

theorem counted_lt (index : Nat) : counted index < 2 ^ 63 := by
  have hmax : Int64.maxValue.toInt.toNat = 2 ^ 63 - 1 := by decide
  unfold counted
  omega

theorem toInt_counted (index : Nat) :
    (Int64.ofNat (counted index)).toInt = (counted index : Int) :=
  Int64.toInt_ofNat_of_lt (counted_lt index)

theorem advance_start : Iterator.advance (-1) = Int64.ofNat (counted 0) := by decide

theorem advance_counted (index : Nat) :
    Iterator.advance (Int64.ofNat (counted index)) = Int64.ofNat (counted (index + 1)) := by
  have hmax : Int64.maxValue.toInt.toNat = 2 ^ 63 - 1 := by decide
  have hcounted := toInt_counted index
  unfold Iterator.advance
  split
  next heq =>
    rw [heq] at hcounted
    have hlast : counted (index + 1) = counted index := by
      have : Int64.maxValue.toInt = 2 ^ 63 - 1 := by decide
      unfold counted at *
      omega
    rw [hlast]
  next hne =>
    have hsucc : counted (index + 1) = counted index + 1 := by
      have hlt : counted index ≠ 2 ^ 63 - 1 := by
        intro heq
        refine hne ?_
        rw [heq]
        decide
      unfold counted at *
      omega
    rw [hsucc, Int64.ofNat_add]
    rfl

theorem counted_eq_zero (index : Nat) : Int64.ofNat (counted index) = 0 ↔ index = 0 := by
  have hmax : Int64.maxValue.toInt.toNat = 2 ^ 63 - 1 := by decide
  rw [← Int64.toInt_inj, toInt_counted]
  have hzero : (0 : Int64).toInt = 0 := rfl
  unfold counted
  omega

theorem counted_mod_two (index : Nat) :
    Int64.ofNat (counted index) % 2 = 0 ↔ counted index % 2 = 0 := by
  have htwo : (2 : Int64).toInt = 2 := rfl
  have hzero : (0 : Int64).toInt = 0 := rfl
  rw [← Int64.toInt_inj, Int64.toInt_mod, toInt_counted, htwo, hzero,
    Int.tmod_eq_emod_of_nonneg (Int.natCast_nonneg _)]
  omega

end Counting

section Status

variable {ask : Method → Value → WorldM Fault Value} {fair : Value → Prop}
  {keeps : Value → Bool} {n steps : Nat} {method : Option Method} {k : Linkage}

theorem getterFor_iter (registrations : List Registration) (generate : Bool) :
    Registration.getterFor (Resolvers.defaults :: registrations) generate .iter = .iter := rfl

-- The status of an iterator is always read by the built-in strategy.
theorem getProperty_driven (hw : w.Paired (driven hhost ref base state) ρ v) {key : String}
    {s : LoopStatus} (hs : LoopStatus.ofName? key = some s) :
    ∃ w₁, Run.getProperty k (.iter ref) (.str key) w = Run.readStatus k ref s w₁ ∧
      w₁.Paired (driven hhost ref base state) ρ v := by
  have hiter : host.hierarchy.known .iter := host.hierarchy.builtin _ (by simp [Class.builtin])
  obtain ⟨hchosen, hkept⟩ := hw.strategies.1.chooseGetter hiter
  rw [getterFor_iter] at hchosen
  refine ⟨{ w with resolvers := (w.resolvers.chooseGetter .iter).2 }, ?_, hw.since, hw.heap,
    ⟨hkept, hw.strategies.2⟩, hw.sink⟩
  have hchoose : (Run.choose Resolvers.chooseGetter (.iter ref) : WorldM Fault Getter) w =
      (.ok .iter, { w with resolvers := (w.resolvers.chooseGetter .iter).2 }) := by
    rw [← hchosen]
    rfl
  have hnull : ¬ (Value.iter ref).isNull = true := Bool.false_ne_true
  rw [Run.getProperty, if_neg hnull, run_bind_ok hchoose]
  change Run.readIter k (.iter ref) (.str key) _ = _
  rw [Run.readIter, show (Value.str key).str?.bind LoopStatus.ofName? = some s from hs]
  rfl

-- The status is what is said of the round. Asking for the next item may leave it found.
theorem readStatus_driven (hcalm : Calm hhost ref base ask fair keeps method)
    (hsteps : n + 3 ≤ steps) (hk : k.hasNext ref = Iterator.hasNextIn ask steps ref)
    {index count : Nat} {later : List Value} (hcount : index + 1 + later.length = count)
    (hw : w.Paired (driven hhost ref base
      (standing fair keeps n method later (Int64.ofNat (counted index)))) ρ v) (s : LoopStatus) :
    ∃ w', Run.readStatus k ref s w = (.ok (.ofLiteral (s.during index count)), w') ∧
      w'.Paired (driven hhost ref base
        (standing fair keeps n method later (Int64.ofNat (counted index)))) ρ v := by
  have hindex := index_driven hw
  obtain ⟨w', hasked, hw'⟩ := hasNextIn_driven hcalm hsteps hw
  have hkept := driven_mono hw' fun it hit => hit.1
  have hpulled (f : Bool → Value) : (do return f (← k.hasNext ref) : WorldM Fault Value) w =
      (.ok (f !later.isEmpty), w') := by
    rw [hk, run_bind_ok hasked]
    rfl
  have hlast : later.isEmpty = decide (index + 1 = count) := by
    cases later <;> simp [← hcount]
  have hmore : (!later.isEmpty) = decide (index + 1 < count) := by
    cases later <;> simp [← hcount]
  cases s with
  | index =>
      refine ⟨w, ?_, hw⟩
      change (Except.ok (Value.int (Iterator.index w.heap (.shared ref))), w) = _
      rw [hindex]
      rfl
  | hasNext =>
      refine ⟨w', ?_, hkept⟩
      change (do return Value.bool (← k.hasNext ref) : WorldM Fault Value) w = _
      rw [hpulled, hmore]
      rfl
  | isFirst =>
      refine ⟨w, ?_, hw⟩
      change (Except.ok (Value.bool (decide (Iterator.index w.heap (.shared ref) = 0))), w) = _
      rw [hindex, decide_eq_decide.mpr (counted_eq_zero index)]
      rfl
  | isLast =>
      refine ⟨w', ?_, hkept⟩
      change (do return Value.bool !(← k.hasNext ref) : WorldM Fault Value) w = _
      rw [hpulled fun more => .bool !more, Bool.not_not, hlast]
      rfl
  | isOdd =>
      refine ⟨w, ?_, hw⟩
      change (Except.ok (Value.bool (decide (Iterator.index w.heap (.shared ref) % 2 = 0))), w) = _
      rw [hindex, decide_eq_decide.mpr (counted_mod_two index)]
      rfl
  | isEven =>
      refine ⟨w, ?_, hw⟩
      have hodd : Int64.ofNat (counted index) % 2 ≠ 0 ↔ counted index % 2 = 1 := by
        rw [Ne, counted_mod_two]
        omega
      change (Except.ok (Value.bool (decide (Iterator.index w.heap (.shared ref) % 2 ≠ 0))), w) = _
      rw [hindex, decide_eq_decide.mpr hodd]
      rfl

theorem tells (hcalm : Calm hhost ref base ask fair keeps method) (hsteps : n + 3 ≤ steps)
    (hk : k.hasNext ref = Iterator.hasNextIn ask steps ref) (l : Loop) {index count : Nat}
    {later : List Value} (hcount : index + 1 + later.length = count) :
    k.Tells (driven hhost ref base
      (standing fair keeps n method later (Int64.ofNat (counted index)))) (l.known index count)
      ref := by
  intro slot status hslot key s hs _ ρ _ w v hw
  obtain rfl : LoopStatus.during index count = status := by
    simp only [known] at hslot
    split at hslot
    · exact Option.some.inj hslot
    · cases hslot
  obtain ⟨w₁, hread, hw₁⟩ := getProperty_driven (k := k) hw hs
  obtain ⟨w₂, hstatus, hw₂⟩ := readStatus_driven hcalm hsteps hk hcount hw₁ s
  rw [hread, hstatus]
  exact .ok le_rfl (Value.alike_ofLiteral _) hw₂

end Status

end Loop

end Stencil
