import Stencil.Run.Property

namespace Stencil

-- The state of one function or template that runs: its variables, the label of the innermost
-- running loop, and the number of the template its code comes from.
structure Frame where
  slots : Array Value
  indexer : Nat
  origin : Nat

namespace Frame

def get (f : Frame) (slot : Nat) : Value := f.slots.getD slot .null

def set (f : Frame) (slot : Nat) (v : Value) : Frame :=
  { f with slots := f.slots.setIfInBounds slot v }

-- A frame of the given size whose first slots hold the arguments that are wanted.
def ofArgs (origin frameSize arity : Nat) (args : List Value) : Frame :=
  ⟨Array.ofFn fun i : Fin frameSize => if i.val < arity then args.getD i.val .null else .null, 0,
    origin⟩

end Frame

-- A frame and the world around it.
structure Activation where
  frame : Frame
  world : World

-- Steps of a frame. What they did before an error stays done.
abbrev RunM := ExceptT (Halt RuntimeError) (StateM Activation)

namespace RunM

def exhausted : RunM α := throw .outOfFuel

def fail (pos : Position) (fault : Fault) : RunM α := throw (.raised (fault.located pos))

-- Runs a step that works on the world alone.
def onWorld (act : WorldM RuntimeError α) : RunM α := fun a =>
  let (result, world) := act a.world
  (result, { a with world })

-- The same for a step whose faults are raised by the node at `pos`.
def located (pos : Position) (act : WorldM Fault α) : RunM α :=
  onWorld (act.mapError (Fault.located pos))

def ofExcept (pos : Position) : Except Fault α → RunM α
  | .ok a => pure a
  | .error fault => fail pos fault

def heap : RunM Heap := return (← get).world.heap

def getSlot (slot : Nat) : RunM Value := return (← get).frame.get slot

def setSlot (slot : Nat) (v : Value) : RunM Unit :=
  modify fun a => { a with frame := a.frame.set slot v }

-- Runs a step inside a loop of the label. However it ends, the loop around it is back in force.
def insideLoop (label : Nat) (act : RunM α) : RunM α := fun a =>
  let (result, a') := act { a with frame := { a.frame with indexer := label } }
  (result, { a' with frame := { a'.frame with indexer := a.frame.indexer } })

end RunM

end Stencil
