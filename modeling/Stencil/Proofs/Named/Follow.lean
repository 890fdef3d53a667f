import Stencil.Proofs.Named.Agreement
import Stencil.Proofs.Run.Follow

namespace Stencil.Named

-- A step by slots goes the way of a step by names. Where they stop they have one world.
abbrev Follows (pre : State → Activation → Prop) (post : α → β → State → Activation → Prop)
    (ref : NameM α) (act : RunM β) : Prop :=
  Stencil.Follows (fun s a => s.world = a.world) pre post ref act

-- The states have one world, and whatever happens to it does no harm.
def Steady (I : State → Activation → Prop) : Prop :=
  ∀ s a, I s a → s.world = a.world ∧ ∀ world, I { s with world } { a with world }

theorem Inv.steady {T : Terms} {Γ : Context} {iters : List (Option Nat)} :
    Steady (Inv T Γ iters) := by
  intro s a h
  refine ⟨h.world, fun world => ?_⟩
  exact ⟨h.tidy, rfl, h.origin, h.shows, h.loops, h.globals, h.size, h.indexer⟩

theorem LoopInv.steady {T : Terms} {Γ : Context} {iters : List (Option Nat)} {l : Loop}
    {ref : Nat} :
    Steady (LoopInv T Γ iters l ref) :=
  fun _ a h => Inv.steady _ a h

namespace Steady

variable {I : State → Activation → Prop} (hI : Steady I)

include hI

theorem world : ∀ s a, I s a → s.world = a.world := fun s a h => (hI s a h).1

theorem onWorld (act : WorldM RuntimeError α) :
    Follows I (Same I) (NameM.onWorld act) (RunM.onWorld act) := by
  intro s a hpre
  obtain ⟨hworld, hkeep⟩ := hI s a hpre
  simp only [NameM.onWorld, RunM.onWorld, hworld]
  rcases act a.world with ⟨halt | x, world⟩
  · exact .stopped rfl
  · exact .ok ⟨rfl, hkeep world⟩

theorem located (pos : Position) (act : WorldM Fault α) :
    Follows I (Same I) (NameM.located pos act) (RunM.located pos act) :=
  hI.onWorld _

theorem heap_bind {post : α → β → State → Activation → Prop} {rest : Heap → NameM α}
    {rest' : Heap → RunM β} (hrest : ∀ heap, Follows I post (rest heap) (rest' heap)) :
    Follows I post (NameM.heap >>= rest) (RunM.heap >>= rest') := by
  intro s a hpre
  have hstep := hrest s.world.heap s a hpre
  change Agrees _ post (rest s.world.heap s) (rest' a.world.heap a)
  rwa [← hI.world s a hpre]

theorem ofExcept (pos : Position) (r : Except Fault α) :
    Follows I (Same I) (NameM.ofExcept pos r) (RunM.ofExcept pos r) := by
  cases r with
  | ok x => exact .pure fun s a hpre => ⟨rfl, hpre⟩
  | error fault => exact .throw hI.world _

theorem isTruthy (v : Value) : Follows I (Same I) (NameM.isTruthy v) (Run.isTruthy v) :=
  hI.heap_bind fun _ => .pure fun _ _ hpre => ⟨rfl, hpre⟩

theorem assignProperty (target key v : Value) (pos : Position) :
    Follows I (Same I) (NameM.assignProperty target key v pos)
      (Run.assignProperty target key v pos) := by
  refine .bind_same (hI.located pos _) fun stored => ?_
  cases stored with
  | true => exact .pure fun _ _ hpre => ⟨rfl, hpre⟩
  | false => exact hI.heap_bind fun heap => .throw hI.world _

end Steady

section Variables

variable {T : Terms} {Γ : Context} {iters : List (Option Nat)} {name : String} {slot : Nat}

theorem get_bind (f : State → NameM α) (s : State) : (get >>= f) s = f s s := rfl

theorem lookup_follows (hresolves : T.Resolves Γ name slot) (pos : Position) :
    Follows (Inv T Γ iters) (Same (Inv T Γ iters)) (NameM.lookup name pos) (RunM.getSlot slot) := by
  intro s a hpre
  have hlookup : NameM.lookup name pos s = (.ok (a.frame.get slot), s) := by
    rw [NameM.lookup, get_bind, hpre.lookup hresolves]
    rfl
  rw [hlookup]
  exact .ok ⟨rfl, hpre⟩

theorem iter_follows (hslot : Γ.loops.head?.map Loop.iterSlot = some slot) (pos : Position) :
    Follows (Inv T Γ iters) (Same (Inv T Γ iters)) (NameM.iter pos) (RunM.getSlot slot) := by
  intro s a hpre
  obtain ⟨ref, href, hvalue⟩ := hpre.iter hslot
  have hiter : NameM.iter pos s = (.ok (a.frame.get slot), s) := by
    rw [NameM.iter, get_bind, href, hvalue]
    rfl
  rw [hiter]
  exact .ok ⟨rfl, hpre⟩

theorem declare_follows (hfresh : T.Fresh Γ slot) (v : Value) :
    Follows (Inv T Γ iters) (Same (Inv T (Γ.bind name slot) iters)) (NameM.declare name v)
      (RunM.setSlot slot v) :=
  fun _ _ hpre => .ok ⟨rfl, hpre.declare hfresh⟩

theorem assign_follows (hresolves : T.Resolves Γ name slot) (v : Value) (pos : Position) :
    Follows (Inv T Γ iters) (Same (Inv T Γ iters)) (NameM.assign name v pos)
      (RunM.setSlot slot v) := by
  intro s a hpre
  obtain ⟨names, hassign, hinv⟩ := hpre.assign (v := v) hresolves
  have hstep : NameM.assign name v pos s = (.ok (), s.setNames names) := by
    rw [NameM.assign, get_bind, hassign]
    rfl
  rw [hstep]
  exact .ok ⟨rfl, hinv⟩

end Variables

end Stencil.Named
