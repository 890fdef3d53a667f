import Stencil.Output.Sink
import Stencil.Resolve.Registry
import Stencil.Value.Lock

namespace Stencil

-- Everything that outlives a frame: shared cells and recorded lines, the strategies chosen so far,
-- and the sink that is written to.
structure World where
  store : Store
  resolvers : Resolvers
  sink : Sink

namespace World

def heap (w : World) : Heap := w.store.heap

def setHeap (w : World) (heap : Heap) : World := { w with store := { w.store with heap } }

end World

-- A run ends early by an error, or because it was given too few steps, or no number is enough.
inductive Halt (ε : Type) where
  | raised (e : ε)
  | outOfFuel
  deriving Repr

namespace Halt

def map (f : ε → δ) : Halt ε → Halt δ
  | raised e => raised (f e)
  | outOfFuel => outOfFuel

end Halt

-- Steps that work on the world. What they did before an error stays done.
abbrev WorldM (ε : Type) := ExceptT (Halt ε) (StateM World)

namespace WorldM

def fail (e : ε) : WorldM ε α := throw (.raised e)

def exhausted : WorldM ε α := throw .outOfFuel

def ofExcept : Except ε α → WorldM ε α
  | .ok a => pure a
  | .error e => fail e

def heap : WorldM ε Heap := return (← get).heap

def setHeap (heap : Heap) : WorldM ε Unit := modify (·.setHeap heap)

-- Turns the errors of a step into others.
def mapError (f : ε → δ) (act : WorldM ε α) : WorldM δ α := fun w =>
  match act w with
  | (.ok a, w) => (.ok a, w)
  | (.error halt, w) => (.error (halt.map f), w)

-- Runs a step under locks, none of which is held before. One that waits for ever does so for any
-- number of steps.
def locking (act : Locking α) : WorldM ε α :=
  match act [] with
  | some a => pure a
  | none => exhausted

-- Runs a step that works on the store alone.
def onStore (act : Store → Except ε α × Store) : WorldM ε α := fun w =>
  match act w.store with
  | (.ok a, store) => (.ok a, { w with store })
  | (.error e, store) => (.error (.raised e), { w with store })

-- Runs a step that works on the sink alone.
def onSink (act : Sink → Except ε α × Sink) : WorldM ε α := fun w =>
  match act w.sink with
  | (.ok a, sink) => (.ok a, { w with sink })
  | (.error e, sink) => (.error (.raised e), { w with sink })

-- Runs a step whose output nobody sees.
def silently (act : WorldM ε α) : WorldM ε α := fun w =>
  let (result, w') := act { w with sink := .discard }
  (result, { w' with sink := w.sink })

def newList (items : List Value) : WorldM ε Value := do
  let (v, heap) := (← heap).newList items
  setHeap heap
  return v

def newMap (entries : List (String × Value)) : WorldM ε Value := do
  let (v, heap) := (← heap).newMap entries
  setHeap heap
  return v

def newIter (it : Iterator) : WorldM ε Nat := do
  let heap ← heap
  setHeap (heap.newIter it).2
  return heap.iters.size

end WorldM

end Stencil
