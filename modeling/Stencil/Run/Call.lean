import Stencil.Run.Execute

namespace Stencil

namespace Run

-- The functions that the host gives to templates, by number.
abbrev Natives := Array Native

def callNative (natives : Natives) (k : Linkage) (ref : Nat) (args : List Value) :
    WorldM Fault Value :=
  match natives[ref]? with
  | some native => native.run k.next args
  | none => return .null

-- Calls a function. Missing arguments are `null` and further ones are ignored; a body that does
-- not return yields `null`.
def invoke (natives : Natives) (k : Linkage) (fuel : Nat) (callee : Value) (args : List Value)
    (pos : Position) : WorldM RuntimeError Value := do
  match callee with
  | .function origin decl =>
    match ← runBody k fuel decl.body (.ofArgs origin decl.frameSize decl.arity args) with
    | .ret v => return v
    | _ => return .null
  | .native ref _ => (callNative natives k ref args).mapError (Fault.located pos)
  | other => WorldM.fail ((Fault.notFunction (other.typeName (← WorldM.heap))).located pos)

-- What a method makes of an item.
def ask (natives : Natives) (k : Linkage) (method : Method) (item : Value) : WorldM Fault Value :=
  match method with
  | .script callee pos => ((k.call callee [item] pos).silently).mapError RuntimeError.nested
  | .native ref => callNative natives k ref [item]

-- Calls nested at most `fuel` deep, with loops of at most that many rounds.
mutual

def callAt (natives : Natives) : Nat → Value → List Value → Position → WorldM RuntimeError Value
  | 0, _, _, _ => WorldM.exhausted
  | fuel + 1, callee, args, pos =>
    invoke natives ⟨callAt natives fuel, hasNextAt natives fuel, nextAt natives fuel⟩ fuel callee
      args pos

def hasNextAt (natives : Natives) : Nat → Nat → WorldM Fault Bool
  | 0, _ => WorldM.exhausted
  | fuel + 1, ref =>
    Iterator.hasNextIn
      (ask natives ⟨callAt natives fuel, hasNextAt natives fuel, nextAt natives fuel⟩) fuel ref

def nextAt (natives : Natives) : Nat → Nat → WorldM Fault Value
  | 0, _ => WorldM.exhausted
  | fuel + 1, ref =>
    Iterator.nextIn
      (ask natives ⟨callAt natives fuel, hasNextAt natives fuel, nextAt natives fuel⟩) fuel ref

end

def linkage (natives : Natives) (fuel : Nat) : Linkage :=
  ⟨callAt natives fuel, hasNextAt natives fuel, nextAt natives fuel⟩

end Run

end Stencil
