import Stencil.Proofs.Run.Blind

namespace Stencil

section

variable (edit : List Stmt → List Stmt)

def Frame.rebody (f : Frame) : Frame := { f with slots := f.slots.map (Value.rebody edit) }

def Activation.rebody (a : Activation) : Activation := ⟨a.frame.rebody edit, a.world.rebody edit⟩

def Flow.rebody : Flow → Flow
  | .ret v => .ret (v.rebody edit)
  | flow => flow

end

variable {edit : List Stmt → List Stmt}

theorem Frame.get_rebody (f : Frame) (slot : Nat) :
    (f.rebody edit).get slot = (f.get slot).rebody edit := by
  simp only [Frame.get, Frame.rebody, Array.getD_eq_getD_getElem?, Array.getElem?_map]
  cases f.slots[slot]? <;> rfl

theorem Frame.set_rebody (f : Frame) (slot : Nat) (v : Value) :
    (f.rebody edit).set slot (v.rebody edit) = (f.set slot v).rebody edit := by
  simp [Frame.set, Frame.rebody, Array.map_setIfInBounds]

theorem Frame.ofArgs_rebody (origin frameSize arity : Nat) (args : List Value) :
    Frame.ofArgs origin frameSize arity (args.map (Value.rebody edit)) =
      (Frame.ofArgs origin frameSize arity args).rebody edit := by
  simp only [Frame.ofArgs, Frame.rebody, Frame.mk.injEq, and_true]
  apply Array.ext
  · simp
  · intro i _ _
    simp only [Array.getElem_ofFn, Array.getElem_map, List.getD_eq_getElem?_getD,
      List.getElem?_map]
    split
    · cases args[i]? <;> rfl
    · rfl

def Activation.Blind (a : Activation) : Prop := a.world.Blind

-- The same for steps of a frame as for steps of the world.
abbrev RunM.Respects (edit : List Stmt → List Stmt) (f : α → α) (act act' : RunM α) : Prop :=
  Mirrors Activation.Blind (Activation.rebody edit) f act act'

namespace RunM

variable {f : α → α}

theorem respects_exhausted (f : α → α) : Respects edit f (exhausted : RunM α) exhausted :=
  Mirrors.throw f Halt.outOfFuel

theorem respects_fail (f : α → α) (pos : Position) (fault : Fault) :
    Respects edit f (fail pos fault : RunM α) (fail pos fault) :=
  Mirrors.throw f (Halt.raised (fault.located pos))

theorem respects_ofExcept (pos : Position) {r r' : Except Fault α} (h : r' = r.map f) :
    Respects edit f (ofExcept pos r) (ofExcept pos r') := by
  subst h
  cases r with
  | error fault => exact respects_fail f pos fault
  | ok a => exact Mirrors.pure rfl

theorem respects_onWorld {act act' : WorldM RuntimeError α} (h : WorldM.Respects edit f act act') :
    Respects edit f (onWorld act) (onWorld act') := by
  intro a ha
  obtain ⟨hend, hblind⟩ := h a.world ha
  refine ⟨?_, hblind⟩
  have hend : act' (a.rebody edit).world = _ := hend
  simp only [onWorld, hend]
  rfl

theorem respects_located (pos : Position) {act act' : WorldM Fault α}
    (h : WorldM.Respects edit f act act') : Respects edit f (located pos act) (located pos act') :=
  respects_onWorld (WorldM.respects_mapError (Fault.located pos) h)

theorem respects_heap_bind {g : β → β} {rest rest' : Heap → RunM β}
    (h : ∀ heap, heap.Blind → Respects edit g (rest heap) (rest' (heap.rebody edit))) :
    Respects edit g (heap >>= rest) (heap >>= rest') :=
  fun a ha => h a.world.heap ha.store a ha

theorem respects_getSlot (slot : Nat) :
    Respects edit (Value.rebody edit) (getSlot slot) (getSlot slot) :=
  Mirrors.read fun a _ => a.frame.get_rebody slot

theorem respects_setSlot (slot : Nat) (v : Value) :
    Respects edit id (setSlot slot v) (setSlot slot (v.rebody edit)) := by
  refine Mirrors.update (fun a _ => ?_) fun _ ha => ha
  simp only [Activation.rebody, Frame.set_rebody]

theorem respects_insideLoop (label : Nat) {act act' : RunM α} (h : Respects edit f act act') :
    Respects edit f (insideLoop label act) (insideLoop label act') := by
  intro a ha
  obtain ⟨hend, hblind⟩ := h { a with frame := { a.frame with indexer := label } } ha
  refine ⟨?_, hblind⟩
  have hend : act' { a.rebody edit with
      frame := { (a.rebody edit).frame with indexer := label } } = _ := hend
  simp only [insideLoop, hend]
  rfl

end RunM

namespace Run

theorem isTruthy_respects (v : Value) :
    RunM.Respects edit id (isTruthy v) (isTruthy (v.rebody edit)) := by
  refine RunM.respects_heap_bind fun heap _ => Mirrors.pure ?_
  rw [Value.isTruthy_rebody]
  rfl

theorem assignProperty_respects (target key v : Value) (pos : Position) :
    RunM.Respects edit id (assignProperty target key v pos)
      (assignProperty (target.rebody edit) (key.rebody edit) (v.rebody edit) pos) := by
  have hset : RunM.Respects edit id _ _ :=
    RunM.respects_located pos (setProperty_respects target key v)
  refine Mirrors.bind hset fun stored => ?_
  cases stored with
  | true => exact Mirrors.pure rfl
  | false =>
      refine RunM.respects_heap_bind fun heap hheap => ?_
      rw [Value.typeName_rebody, Value.display_rebody hheap]
      exact RunM.respects_fail id pos _

-- The fuel counts the rounds.
theorem runLoop_respects {k : Linkage} (hk : k.Respects edit) (label itemSlot : Nat)
    (pos : Position) (ref : Nat) {body body' : RunM Flow}
    (hbody : RunM.Respects edit (Flow.rebody edit) body body') (fuel : Nat) :
    RunM.Respects edit (Flow.rebody edit) (runLoop k label itemSlot pos ref body fuel)
      (runLoop k label itemSlot pos ref body' fuel) := by
  induction fuel with
  | zero => exact RunM.respects_exhausted _
  | succ fuel ih =>
      have hgoOn : RunM.Respects edit (Flow.rebody edit)
          (do
            if ← RunM.located pos (k.hasNext ref) then runLoop k label itemSlot pos ref body fuel
            else return .normal)
          (do
            if ← RunM.located pos (k.hasNext ref) then runLoop k label itemSlot pos ref body' fuel
            else return .normal) := by
        refine Mirrors.bind (RunM.respects_located pos (hk.hasNext ref)) fun more => ?_
        cases more with
        | true => exact ih
        | false => exact Mirrors.pure rfl
      refine Mirrors.bind (RunM.respects_located pos (hk.next ref)) fun item => ?_
      refine Mirrors.bind (RunM.respects_setSlot itemSlot item) fun _ => ?_
      refine Mirrors.bind hbody fun flow => ?_
      cases flow with
      | normal => exact hgoOn
      | ret v => exact Mirrors.pure rfl
      | brk target =>
          simp only [Flow.rebody]
          split
          · exact Mirrors.pure rfl
          · exact Mirrors.pure rfl
      | cont target =>
          simp only [Flow.rebody]
          split
          · exact hgoOn
          · exact Mirrors.pure rfl

end Run

end Stencil
