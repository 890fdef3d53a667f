import Stencil.Proofs.Run.Realm

namespace Stencil

-- How a step may end: with a good result or with an error that is allowed, and in a good state.
inductive Ends (I : σ → Prop) (fails : ε → Prop) (P : α → Prop) : Except (Halt ε) α × σ → Prop
  | ok {x : α} {s : σ} (result : P x) (state : I s) : Ends I fails P (.ok x, s)
  | raised {e : ε} {s : σ} (error : fails e) (state : I s) : Ends I fails P (.error (.raised e), s)
  | outOfFuel {s : σ} (state : I s) : Ends I fails P (.error .outOfFuel, s)

-- From a good state the step ends well.
def Keeps (I : σ → Prop) (fails : ε → Prop) (P : α → Prop)
    (act : ExceptT (Halt ε) (StateM σ) α) : Prop :=
  ∀ s, I s → Ends I fails P (act s)

namespace Keeps

variable {I : σ → Prop} {fails : ε → Prop} {P : α → Prop}

theorem pure {x : α} (h : P x) : Keeps I fails P (Pure.pure x) := fun _ hs => .ok h hs

theorem bind {Q : β → Prop} {act : ExceptT (Halt ε) (StateM σ) α}
    {rest : α → ExceptT (Halt ε) (StateM σ) β} (h : Keeps I fails P act)
    (hrest : ∀ x, P x → Keeps I fails Q (rest x)) : Keeps I fails Q (act >>= rest) := by
  intro s hs
  have hfirst := h s hs
  simp only [Bind.bind, ExceptT.bind, ExceptT.mk, StateT.bind]
  generalize act s = reached at hfirst ⊢
  cases hfirst with
  | ok result state => exact hrest _ result _ state
  | raised error state => exact .raised error state
  | outOfFuel state => exact .outOfFuel state

end Keeps

def Fault.isNested : Fault → Bool
  | .nested _ _ => true
  | _ => false

variable {R : Realm}

-- A fault without a place, or one that has its place in the realm already.
def Fault.Within (R : Realm) : Fault → Prop
  | .nested pos fault => R.places pos ∧ fault.isNested = false
  | _ => True

def RuntimeError.Within (R : Realm) (e : RuntimeError) : Prop :=
  R.places e.pos ∧ e.fault.isNested = false

theorem Fault.within_of_not_nested {f : Fault} (h : f.isNested = false) : f.Within R := by
  cases f <;> trivial

-- A result whose fault, if it is one, has no place yet.
inductive Clean (P : α → Prop) : Except Fault α → Prop
  | ok {x : α} (h : P x) : Clean P (.ok x)
  | error {f : Fault} (h : f.isNested = false) : Clean P (.error f)

namespace Clean

variable {P : α → Prop}

theorem bind {Q : β → Prop} {r : Except Fault α} {rest : α → Except Fault β} (h : Clean P r)
    (hrest : ∀ x, P x → Clean Q (rest x)) : Clean Q (r >>= rest) := by
  cases h with
  | ok h => exact hrest _ h
  | error h => exact .error h

theorem mono {Q : α → Prop} {r : Except Fault α} (h : Clean P r) (himp : ∀ x, P x → Q x) :
    Clean Q r := by
  cases h with
  | ok h => exact .ok (himp _ h)
  | error h => exact .error h

end Clean

-- Attaching a place undoes the wrapping of a nested fault.
theorem Fault.Within.located {f : Fault} (h : f.Within R) {pos : Position} (hpos : R.places pos) :
    (f.located pos).Within R := by
  cases f with
  | nested inner fault => exact h
  | _ => exact ⟨hpos, rfl⟩

theorem RuntimeError.Within.nested {e : RuntimeError} (h : e.Within R) : e.nested.Within R := h

-- A step on the store alone.
structure Store.Keeps (R : Realm) (P : α → Prop) (act : Store → Except Fault α × Store) : Prop where
  store : ∀ {s}, s.heap.Within R → (act s).2.heap.Within R
  result : ∀ {s x}, s.heap.Within R → (act s).1 = .ok x → P x
  fault : ∀ {s f}, s.heap.Within R → (act s).1 = .error f → f.Within R

-- Strategies of the host work with what they are given, whatever functions there are.
def Getter.Plain (cells : Cell → Prop) : Getter → Prop
  | .fieldTable cls => cls.Plain cells
  | .custom run => ∀ places target key, let R : Realm := ⟨places, cells⟩
    target.Within R → key.Within R → Store.Keeps R (Value.Within R) (run target key)
  | _ => True

def Setter.Plain (cells : Cell → Prop) : Setter → Prop
  | .fieldTable cls => cls.Plain cells
  | .custom run => ∀ places target key v, let R : Realm := ⟨places, cells⟩
    target.Within R → key.Within R → v.Within R →
      Store.Keeps R (fun _ => True) (run target key v)
  | _ => True

def Serializer.Plain (cells : Cell → Prop) : Serializer → Prop
  | .custom run => ∀ places v encoding, let R : Realm := ⟨places, cells⟩
    v.Within R → Store.Keeps R (fun _ => True) (run v encoding)
  | _ => True

def Kinds.plain (cells : Cell → Prop) : Kinds where
  getter := Getter.Plain cells
  setter := Setter.Plain cells
  serializer := Serializer.Plain cells
  cls := Class.Plain cells
  commonGetter := trivial
  commonSetter := trivial
  commonSerializer := trivial
  tableGetter h := h
  tableSetter h := h

theorem Resolvers.defaults_plain (cells : Cell → Prop) : defaults.Of (.plain cells) := by
  simp only [defaults, Registration.Of, Registration.AllOf, and_true]
  refine ⟨?_, ?_, ?_, ?_, ?_, ?_⟩ <;> constructor <;> rintro _ ⟨⟩ <;> trivial

structure World.Within (R : Realm) (w : World) : Prop where
  heap : w.heap.Within R
  resolvers : w.resolvers.Of (.plain R.cells)

abbrev WorldM.Keeps (R : Realm) (P : α → Prop) (act : WorldM Fault α) : Prop :=
  Stencil.Keeps (World.Within R) (Fault.Within R) P act

namespace WorldM

theorem keeps_fail {P : α → Prop} {f : Fault} (h : f.Within R) : Keeps R P (fail f) :=
  fun _ hw => .raised h hw

theorem keeps_ofExcept {P : α → Prop} {r : Except Fault α} (h : Clean P r) :
    Keeps R P (ofExcept r) := by
  cases h with
  | ok h => exact .pure h
  | error h => exact keeps_fail (Fault.within_of_not_nested h)

variable {fails : ε → Prop} {P : α → Prop}

theorem keeps_heap_bind {rest : Heap → WorldM ε α}
    (h : ∀ heap, heap.Within R → Stencil.Keeps (World.Within R) fails P (rest heap)) :
    Stencil.Keeps (World.Within R) fails P (heap >>= rest) :=
  fun w hw => h w.heap hw.heap w hw

theorem keeps_setHeap {heap : Heap} (h : heap.Within R) :
    Stencil.Keeps (World.Within R) fails (fun _ => True) (setHeap heap : WorldM ε Unit) :=
  fun _ hw => .ok trivial ⟨h, hw.resolvers⟩

theorem keeps_mapError {fails' : δ → Prop} {f : ε → δ} {act : WorldM ε α}
    (h : Stencil.Keeps (World.Within R) fails P act) (hf : ∀ e, fails e → fails' (f e)) :
    Stencil.Keeps (World.Within R) fails' P (mapError f act) := by
  intro w hw
  have hend := h w hw
  unfold mapError
  generalize act w = reached at hend ⊢
  cases hend with
  | ok result state => exact .ok result state
  | raised error state => exact .raised (hf _ error) state
  | outOfFuel state => exact .outOfFuel state

theorem keeps_onStore {act : Store → Except Fault α × Store} (h : Store.Keeps R P act) :
    Keeps R P (onStore act) := by
  intro w hw
  have hstore := h.store hw.heap
  have hresult := fun x => h.result (x := x) hw.heap
  have hfault := fun f => h.fault (f := f) hw.heap
  unfold onStore
  generalize act w.store = reached at hstore hresult hfault ⊢
  obtain ⟨result, store⟩ := reached
  cases result with
  | ok x => exact .ok (hresult x rfl) ⟨hstore, hw.resolvers⟩
  | error f => exact .raised (hfault f rfl) ⟨hstore, hw.resolvers⟩

theorem keeps_onSink {act : Sink → Except Fault α × Sink}
    (h : ∀ sink f, (act sink).1 = .error f → f.Within R) :
    Keeps R (fun _ => True) (onSink act) := by
  intro w hw
  have hfault := h w.sink
  unfold onSink
  generalize act w.sink = reached at hfault ⊢
  obtain ⟨result, sink⟩ := reached
  cases result with
  | ok x => exact .ok trivial ⟨hw.heap, hw.resolvers⟩
  | error f => exact .raised (hfault f rfl) ⟨hw.heap, hw.resolvers⟩

theorem keeps_silently {act : WorldM ε α} (h : Stencil.Keeps (World.Within R) fails P act) :
    Stencil.Keeps (World.Within R) fails P (silently act) := by
  intro w hw
  have hend := h { w with sink := .discard } ⟨hw.heap, hw.resolvers⟩
  unfold silently
  generalize act { w with sink := .discard } = reached at hend ⊢
  cases hend with
  | ok result state => exact .ok result ⟨state.heap, state.resolvers⟩
  | raised error state => exact .raised error ⟨state.heap, state.resolvers⟩
  | outOfFuel state => exact .outOfFuel ⟨state.heap, state.resolvers⟩

theorem keeps_newList {items : List Value} (h : ∀ v ∈ items, v.Within R) :
    Stencil.Keeps (World.Within R) fails (Value.Within R) (newList items) := by
  refine keeps_heap_bind fun heap hheap => ?_
  obtain ⟨hv, hnew⟩ := hheap.newList h
  exact .bind (keeps_setHeap hnew) fun _ _ => .pure hv

theorem keeps_newIter {it : Iterator} (h : it.Within R) :
    Stencil.Keeps (World.Within R) fails (fun ref => R.cells (.iter ref)) (newIter it) := by
  refine keeps_heap_bind fun heap hheap => ?_
  obtain ⟨href, hnew⟩ := hheap.newIter h
  exact .bind (keeps_setHeap hnew) fun _ _ => .pure href

end WorldM

-- Operators give values that need no realm, and their faults have no place yet.
def Value.Mild (r : Except Fault Value) : Prop := Clean (fun v => v.isImmutable = true) r

namespace Value

theorem arithmetic_mild (heap : Heap) (op : BinaryOp) (ints : Int → Int → Option Int)
    (floats : Float → Float → Float) (a b : Value) : Mild (arithmetic heap op ints floats a b) := by
  unfold arithmetic
  split
  · split
    · exact .ok rfl
    · exact .error rfl
  · exact .ok rfl
  · exact .error rfl

theorem bitwise_mild (heap : Heap) (op : BinaryOp) (ints : Int64 → Int64 → Int64)
    (bools : Bool → Bool → Bool) (a b : Value) : Mild (bitwise heap op ints bools a b) := by
  unfold bitwise
  split
  · exact .ok rfl
  · exact .ok rfl
  · exact .error rfl

theorem shift_mild (heap : Heap) (op : BinaryOp) (by' : Int64 → Int64 → Int64) (a b : Value) :
    Mild (shift heap op by' a b) := by
  unfold shift
  split
  · exact .ok rfl
  · exact .error rfl

theorem comparison_mild (heap : Heap) (op : BinaryOp) (holds : Ordering → Bool) (a b : Value) :
    Mild (comparison heap op holds a b) := by
  unfold comparison
  split
  · exact .ok rfl
  · exact .error rfl

theorem plus_mild (heap : Heap) (a b : Value) : Mild (plus heap a b) := by
  unfold plus
  split
  · exact .ok rfl
  · exact .ok rfl
  · exact arithmetic_mild _ _ _ _ _ _

theorem divide_mild (heap : Heap) (a b : Value) : Mild (divide heap a b) := by
  unfold divide
  split
  · exact .error rfl
  · exact arithmetic_mild _ _ _ _ _ _

theorem remainder_mild (heap : Heap) (a b : Value) : Mild (remainder heap a b) := by
  unfold remainder
  split
  · exact .error rfl
  · exact arithmetic_mild _ _ _ _ _ _

theorem binary_mild (heap : Heap) (op : BinaryOp) (a b : Value) : Mild (binary heap op a b) := by
  cases op with
  | plus => exact plus_mild heap a b
  | divide => exact divide_mild heap a b
  | remainder => exact remainder_mild heap a b
  | minus | times =>
      simp only [binary]
      exact arithmetic_mild _ _ _ _ _ _
  | bitAnd | bitOr | bitXor =>
      simp only [binary]
      exact bitwise_mild _ _ _ _ _ _
  | shiftLeft | shiftRight | shiftRightZero =>
      simp only [binary]
      exact shift_mild _ _ _ _ _
  | equal | notEqual => exact .ok rfl
  | less | lessEqual | greater | greaterEqual =>
      simp only [binary]
      exact comparison_mild _ _ _ _ _
  | range =>
      simp only [binary]
      split
      · exact .ok rfl
      · exact .error rfl

theorem unary_mild (heap : Heap) (op : UnaryOp) (a : Value) : Mild (unary heap op a) := by
  unfold unary
  split
  · exact .ok rfl
  · split
    · exact .ok rfl
    · exact .error rfl
  · exact .ok rfl
  · exact .ok rfl
  · exact .error rfl

end Value

end Stencil
