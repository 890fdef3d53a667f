import Stencil.Proofs.Alike.Operator
import Stencil.Run.World

namespace Stencil

-- Two ends of a run: both with results that belong together, or both stopped for the same reason.
-- On the way further cells may have come to stand for each other.
inductive EndsAlike (I : Renaming → σ → τ → Prop) (P : Renaming → α → β → Prop) (ρ : Renaming) :
    Except η α × σ → Except η β × τ → Prop where
  | ok {ρ' : Renaming} {x : α} {y : β} {s : σ} {t : τ} (grows : ρ ≤ ρ') (result : P ρ' x y)
      (state : I ρ' s t) : EndsAlike I P ρ (.ok x, s) (.ok y, t)
  | stopped {ρ' : Renaming} {e : η} {s : σ} {t : τ} (grows : ρ ≤ ρ') (state : I ρ' s t) :
      EndsAlike I P ρ (.error e, s) (.error e, t)

-- From states that belong together two steps reach such ends, also when cells have been added.
def RunsAlike (I : Renaming → σ → τ → Prop) (P : Renaming → α → β → Prop) (ρ : Renaming)
    (act : σ → Except η α × σ) (act' : τ → Except η β × τ) : Prop :=
  ∀ ρ', ρ ≤ ρ' → ∀ s t, I ρ' s t → EndsAlike I P ρ' (act s) (act' t)

-- Results that are the same on both sides.
def Equal (_ : Renaming) (x y : α) : Prop := y = x

section

variable {I : Renaming → σ → τ → Prop} {P : Renaming → α → β → Prop} {ρ ρ' : Renaming}

theorem EndsAlike.since {end₁ : Except η α × σ} {end₂ : Except η β × τ} (h : ρ ≤ ρ')
    (hend : EndsAlike I P ρ' end₁ end₂) : EndsAlike I P ρ end₁ end₂ := by
  cases hend with
  | ok grows result state => exact .ok (h.trans grows) result state
  | stopped grows state => exact .stopped (h.trans grows) state

-- Both states are changed once the ends are reached.
theorem EndsAlike.leave {J : Renaming → σ₁ → τ₁ → Prop} {Q : Renaming → α → β → Prop} {f : σ → σ₁}
    {g : τ → τ₁} {end₁ : Except η α × σ} {end₂ : Except η β × τ} (h : EndsAlike I P ρ end₁ end₂)
    (hstate : ∀ ρ', ρ ≤ ρ' → ∀ s t, I ρ' s t → J ρ' (f s) (g t))
    (hresult : ∀ ρ' x y, P ρ' x y → Q ρ' x y) :
    EndsAlike J Q ρ (end₁.1, f end₁.2) (end₂.1, g end₂.2) := by
  cases h with
  | ok grows result state => exact .ok grows (hresult _ _ _ result) (hstate _ grows _ _ state)
  | stopped grows state => exact .stopped grows (hstate _ grows _ _ state)

-- A step goes on from where the one before it ended. What belongs together may change then.
theorem EndsAlike.bind {J : Renaming → σ → τ → Prop} {Q : Renaming → γ → δ → Prop}
    {act : ExceptT η (StateM σ) α} {act' : ExceptT η (StateM τ) β}
    {rest : α → ExceptT η (StateM σ) γ} {rest' : β → ExceptT η (StateM τ) δ} {s : σ} {t : τ}
    (hfirst : EndsAlike I P ρ (act s) (act' t))
    (hrest : ∀ ρ', ρ ≤ ρ' → ∀ x y s t, P ρ' x y → I ρ' s t →
      EndsAlike J Q ρ' (rest x s) (rest' y t))
    (hstopped : ∀ ρ', ρ ≤ ρ' → ∀ s t, I ρ' s t → J ρ' s t) :
    EndsAlike J Q ρ ((act >>= rest : ExceptT η (StateM σ) γ) s)
      ((act' >>= rest' : ExceptT η (StateM τ) δ) t) := by
  simp only [Bind.bind, ExceptT.bind, ExceptT.mk, StateT.bind]
  generalize act s = end₁ at hfirst ⊢
  generalize act' t = end₂ at hfirst ⊢
  cases hfirst with
  | stopped hgrows hst => exact .stopped hgrows (hstopped _ hgrows _ _ hst)
  | ok hgrows hxy hst => exact (hrest _ hgrows _ _ _ _ hxy hst).since hgrows

namespace RunsAlike

variable {act : ExceptT η (StateM σ) α} {act' : ExceptT η (StateM τ) β}

theorem pure {x : α} {y : β} (h : ∀ ρ', ρ ≤ ρ' → P ρ' x y) :
    RunsAlike I P ρ (Pure.pure x : ExceptT η (StateM σ) α)
      (Pure.pure y : ExceptT η (StateM τ) β) :=
  fun ρ' hgrows _ _ hst => .ok le_rfl (h ρ' hgrows) hst

theorem throw (e : η) :
    RunsAlike I P ρ (MonadExcept.throw e : ExceptT η (StateM σ) α)
      (MonadExcept.throw e : ExceptT η (StateM τ) β) :=
  fun _ _ _ _ hst => .stopped le_rfl hst

theorem bind {Q : Renaming → γ → δ → Prop} {rest : α → ExceptT η (StateM σ) γ}
    {rest' : β → ExceptT η (StateM τ) δ} (h : RunsAlike I P ρ act act')
    (hrest : ∀ ρ', ρ ≤ ρ' → ∀ x y, P ρ' x y → RunsAlike I Q ρ' (rest x) (rest' y)) :
    RunsAlike I Q ρ (act >>= rest : ExceptT η (StateM σ) γ)
      (act' >>= rest' : ExceptT η (StateM τ) δ) := by
  intro ρ₁ hgrows₁ s t hst
  refine (h ρ₁ hgrows₁ s t hst).bind ?_ fun _ _ _ _ hst => hst
  intro ρ₂ hgrows₂ x y s t hxy hst
  exact hrest ρ₂ (hgrows₁.trans hgrows₂) x y hxy ρ₂ le_rfl s t hst

-- The first step has equal results.
theorem bind_equal {Q : Renaming → γ → δ → Prop} {act' : ExceptT η (StateM τ) α}
    {rest : α → ExceptT η (StateM σ) γ} {rest' : α → ExceptT η (StateM τ) δ}
    (h : RunsAlike I Equal ρ act act')
    (hrest : ∀ ρ', ρ ≤ ρ' → ∀ x, RunsAlike I Q ρ' (rest x) (rest' x)) :
    RunsAlike I Q ρ (act >>= rest : ExceptT η (StateM σ) γ)
      (act' >>= rest' : ExceptT η (StateM τ) δ) :=
  bind h fun ρ' hgrows x _ hxy => by
    cases hxy
    exact hrest ρ' hgrows x

end RunsAlike

end

-- Results or the same fault.
inductive ExceptAlike (P : α → β → Prop) : Except ε α → Except ε β → Prop where
  | ok {x y} (h : P x y) : ExceptAlike P (.ok x) (.ok y)
  | error {e} : ExceptAlike P (.error e) (.error e)

theorem ExceptAlike.refl {P : α → α → Prop} (r : Except ε α) (h : ∀ x, r = .ok x → P x x) :
    ExceptAlike P r r := by
  cases r with
  | ok x => exact .ok (h x rfl)
  | error e => exact .error

theorem ExceptAlike.imp {P Q : α → β → Prop} {r : Except ε α} {r' : Except ε β}
    (hr : ExceptAlike P r r') (h : ∀ {x y}, P x y → Q x y) : ExceptAlike Q r r' := by
  cases hr with
  | ok hxy => exact .ok (h hxy)
  | error => exact .error

def Store.Paired (t : Aside classes) (ρ : Renaming) (s s' : Store) : Prop :=
  s.heap.Paired t ρ s'.heap

-- Strategies of the host work with what they are given and keep nothing to themselves.
def Getter.Uniform (classes : Class → Prop) : Getter → Prop
  | .fieldTable cls => cls.Uniform
  | .custom run => ∀ (t : Aside classes) (ρ : Renaming) (target target' key key' : Value),
    target.Alike ρ target' → key.Alike ρ key' →
      RunsAlike (Store.Paired t) Value.Alike ρ (run target key) (run target' key')
  | _ => True

def Setter.Uniform (classes : Class → Prop) : Setter → Prop
  | .fieldTable cls => cls.Uniform
  | .custom run => ∀ (t : Aside classes) (ρ : Renaming) (target target' key key' v v' : Value),
    target.Alike ρ target' → key.Alike ρ key' → v.Alike ρ v' →
      RunsAlike (Store.Paired t) Equal ρ (run target key v) (run target' key' v')
  | _ => True

def Serializer.Uniform (classes : Class → Prop) : Serializer → Prop
  | .custom run => ∀ (t : Aside classes) (ρ : Renaming) (v v' : Value) (encoding : String),
    v.Alike ρ v' → RunsAlike (Store.Paired t) Equal ρ (run v encoding) (run v' encoding)
  | _ => True

-- What is put aside, the cells that stand for each other at first, and two sets of strategies that
-- choose alike for known classes, and go on to do so.
structure Setting (classes : Class → Prop) extends Aside classes where
  base : Renaming
  strategies : Resolvers → Resolvers → Prop
  getter : ∀ {r r' cls}, strategies r r' → classes cls →
    (r'.chooseGetter cls).1 = (r.chooseGetter cls).1 ∧
      strategies (r.chooseGetter cls).2 (r'.chooseGetter cls).2 ∧
      (r.chooseGetter cls).1.Uniform classes
  setter : ∀ {r r' cls}, strategies r r' → classes cls →
    (r'.chooseSetter cls).1 = (r.chooseSetter cls).1 ∧
      strategies (r.chooseSetter cls).2 (r'.chooseSetter cls).2 ∧
      (r.chooseSetter cls).1.Uniform classes
  serializer : ∀ {r r' cls}, strategies r r' → classes cls →
    (r'.chooseSerializer cls).1 = (r.chooseSerializer cls).1 ∧
      strategies (r.chooseSerializer cls).2 (r'.chooseSerializer cls).2 ∧
      (r.chooseSerializer cls).1.Uniform classes

-- Two worlds of which runs see the same.
structure World.Paired (T : Setting classes) (ρ : Renaming) (w v : World) : Prop where
  since : T.base ≤ ρ
  heap : w.heap.Paired T.toAside ρ v.heap
  strategies : T.strategies w.resolvers v.resolvers
  sink : v.sink = w.sink

theorem World.Paired.setHeap {classes : Class → Prop} {T : Setting classes} {ρ ρ' : Renaming}
    {w v : World}
    (h : w.Paired T ρ v) (hgrows : ρ ≤ ρ') {heap heap' : Heap}
    (hheap : heap.Paired T.toAside ρ' heap') :
    (w.setHeap heap).Paired T ρ' (v.setHeap heap') :=
  ⟨h.since.trans hgrows, hheap, h.strategies, h.sink⟩

namespace WorldM

variable {classes : Class → Prop} {T : Setting classes} {ρ : Renaming} {P : Renaming → α → β → Prop}

abbrev Alike (T : Setting classes) (P : Renaming → α → β → Prop) (ρ : Renaming) (act : WorldM ε α)
    (act' : WorldM ε β) : Prop :=
  RunsAlike (World.Paired T) P ρ act act'

theorem alike_exhausted : Alike T P ρ (exhausted : WorldM ε α) (exhausted : WorldM ε β) :=
  .throw _

theorem alike_ofExcept {r : Except ε α} {r' : Except ε β}
    (h : ∀ ρ', ρ ≤ ρ' → ExceptAlike (P ρ') r r') : Alike T P ρ (ofExcept r) (ofExcept r') := by
  intro ρ' hgrows w v hw
  cases h ρ' hgrows with
  | ok hxy => exact .ok le_rfl hxy hw
  | error => exact .stopped le_rfl hw

-- What is done with the heap may use that heaps belong together.
theorem alike_heap_bind {rest : Heap → WorldM ε α} {rest' : Heap → WorldM ε β}
    (h : ∀ ρ', ρ ≤ ρ' → ∀ w v, w.Paired T ρ' v →
      EndsAlike (World.Paired T) P ρ' (rest w.heap w) (rest' v.heap v)) :
    Alike T P ρ (heap >>= rest) (heap >>= rest') :=
  fun ρ' hgrows w v hw => h ρ' hgrows w v hw

theorem alike_mapError {act : WorldM ε α} {act' : WorldM ε β} (f : ε → δ)
    (h : Alike T P ρ act act') : Alike T P ρ (mapError f act) (mapError f act') := by
  intro ρ' hgrows w v hw
  have hend := h ρ' hgrows w v hw
  unfold mapError
  generalize act w = end₁ at hend ⊢
  generalize act' v = end₂ at hend ⊢
  cases hend with
  | ok grows result state => exact .ok grows result state
  | stopped grows state => exact .stopped grows state

theorem alike_onStore {act : Store → Except ε α × Store} {act' : Store → Except ε β × Store}
    (h : RunsAlike (Store.Paired T.toAside) P ρ act act') :
    Alike T P ρ (onStore act) (onStore act') := by
  intro ρ' hgrows w v hw
  have hend := h ρ' hgrows w.store v.store hw.heap
  unfold onStore
  generalize act w.store = end₁ at hend ⊢
  generalize act' v.store = end₂ at hend ⊢
  cases hend with
  | ok grows result state =>
      exact .ok grows result ⟨hw.since.trans grows, state, hw.strategies, hw.sink⟩
  | stopped grows state =>
      exact .stopped grows ⟨hw.since.trans grows, state, hw.strategies, hw.sink⟩

theorem alike_onSink (act : Sink → Except ε α × Sink) :
    Alike T Equal ρ (onSink act) (onSink act) := by
  intro ρ' _ w v hw
  unfold onSink
  rw [hw.sink]
  rcases act w.sink with ⟨e | x, sink⟩
  · exact .stopped le_rfl ⟨hw.since, hw.heap, hw.strategies, rfl⟩
  · exact .ok le_rfl rfl ⟨hw.since, hw.heap, hw.strategies, rfl⟩

theorem alike_silently {act : WorldM ε α} {act' : WorldM ε β} (h : Alike T P ρ act act') :
    Alike T P ρ (silently act) (silently act') := by
  intro ρ' hgrows w v hw
  have hsilent : World.Paired T ρ' { w with sink := .discard } { v with sink := .discard } :=
    ⟨hw.since, hw.heap, hw.strategies, rfl⟩
  refine (h ρ' hgrows _ _ hsilent).leave (f := fun u => { u with sink := w.sink })
    (g := fun u => { u with sink := v.sink }) ?_ fun _ _ _ hxy => hxy
  intro _ _ _ _ hst
  exact ⟨hst.since, hst.heap, hst.strategies, hw.sink⟩

theorem alike_newList {items items' : List Value}
    (hitems : List.Forall₂ (Value.Alike ρ) items items') :
    Alike T Value.Alike ρ (newList items : WorldM ε Value) (newList items') := by
  intro ρ₁ hgrows w v hw
  obtain ⟨ρ₂, hnew, hv, hheap⟩ := hw.heap.newList (Value.Alike.mono_list hgrows hitems)
  exact .ok hnew hv (hw.setHeap hnew hheap)

-- A new iterator is given by its cell.
theorem alike_newIter {it it' : Iterator} (hit : it.Alike ρ it') :
    Alike T (fun ρ a b => ρ.cells (.iter a) (.iter b)) ρ (newIter it : WorldM ε Nat)
      (newIter it') := by
  intro ρ₁ hgrows w v hw
  obtain ⟨ρ₂, hnew, href, hheap⟩ := hw.heap.newIter (hit.mono hgrows)
  exact .ok hnew href (hw.setHeap hnew hheap)

end WorldM

end Stencil
