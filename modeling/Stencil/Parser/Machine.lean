import Stencil.Source.ParseError
import Stencil.Table.Basic

namespace Stencil.Parser

-- A terminal as it comes from the input.
structure Input (V : Type) where
  symbol : Nat
  value : V
  pos : Position
  deriving Repr

-- A symbol on the stack, with the state that was entered over it.
structure Frame (V : Type) where
  symbol : Nat
  value : V
  state : Nat
  pos : Position
  deriving Repr

-- The symbols that a production takes off the stack, leftmost first.
structure Handle (V : Type) where
  frames : List (Frame V)
  deriving Repr

namespace Handle

def length (h : Handle V) : Nat := h.frames.length

-- Where the handle starts. An empty handle has no place.
def pos (h : Handle V) : Position := (h.frames.head?.map Frame.pos).getD ⟨0, 0⟩

def value? (h : Handle V) (i : Nat) : Option V := (h.frames[i]?).map Frame.value

def posAt (h : Handle V) (i : Nat) : Position := ((h.frames[i]?).map Frame.pos).getD h.pos

end Handle

-- The value of a reduction, and whether it ends the parse.
structure Reduction (V : Type) where
  value : V
  accepted : Bool
  deriving Repr

-- Where tokens come from, and what is done at each reduction. Both keep a state of their own.
structure Environment (V σ ρ : Type) where
  tables : Tables
  terminalNames : List String
  next : σ → Except ParseError (Input V) × σ
  reduce : Nat → Handle V → ρ → Except ParseError (Reduction V) × ρ

-- The stack has its top first.
structure Configuration (V σ ρ : Type) where
  stack : List (Frame V)
  lookahead : Input V
  source : σ
  memory : ρ

structure Result (V σ ρ : Type) where
  value : Except ParseError V
  source : σ
  memory : ρ

inductive Step (V σ ρ : Type) where
  | running (c : Configuration V σ ρ)
  | stopped (r : Result V σ ρ)

-- The state under an empty stack.
def startState : Nat := 0

def topState : List (Frame V) → Nat
  | [] => startState
  | top :: _ => top.state

namespace Environment

variable {V σ ρ : Type} (env : Environment V σ ρ)

def terminalName (symbol : Nat) : String :=
  (env.terminalNames[symbol]?).getD ("symbol #" ++ toString symbol)

-- Pushes the lookahead and reads the next one.
def shift (c : Configuration V σ ρ) (target : Nat) : Step V σ ρ :=
  let frame : Frame V := ⟨c.lookahead.symbol, c.lookahead.value, target, c.lookahead.pos⟩
  match env.next c.source with
  | (.ok lookahead, source) => .running ⟨frame :: c.stack, lookahead, source, c.memory⟩
  | (.error e, source) => .stopped ⟨.error e, source, c.memory⟩

def stop (c : Configuration V σ ρ) (pos : Position) (fault : ParseFault) : Step V σ ρ :=
  .stopped ⟨.error ⟨pos, fault⟩, c.source, c.memory⟩

-- Takes the right side of a production off the stack and pushes its left side.
def reduceBy (c : Configuration V σ ρ) (production : Nat) : Step V σ ρ :=
  match env.tables.productionAt production with
  | none => stop c c.lookahead.pos (.corruptTables ("unknown production " ++ toString production))
  | some (left, length) =>
    if length > c.stack.length then
      stop c c.lookahead.pos (.corruptTables ("production " ++ toString production ++ " pops " ++
        toString length ++ " of " ++ toString c.stack.length ++ " symbols"))
    else
      let handle : Handle V := ⟨(c.stack.take length).reverse⟩
      let below := c.stack.drop length
      match env.reduce production handle c.memory with
      | (.error e, memory) => .stopped ⟨.error e, c.source, memory⟩
      | (.ok ⟨value, true⟩, memory) => .stopped ⟨.ok value, c.source, memory⟩
      | (.ok ⟨value, false⟩, memory) =>
        let target := env.tables.gotoAt (topState below) left
        if target < 0 then
          .stopped ⟨.error ⟨handle.pos, .corruptTables ("no goto from state " ++
            toString (topState below) ++ " over non-terminal " ++ toString left)⟩, c.source, memory⟩
        else
          .running ⟨⟨left, value, target.toInt.toNat, handle.pos⟩ :: below, c.lookahead, c.source,
            memory⟩

-- One shift or one reduction.
def step (c : Configuration V σ ρ) : Step V σ ρ :=
  let action := env.tables.actionAt (topState c.stack) c.lookahead.symbol
  if action > 0 then env.shift c (action.toInt.toNat - 1)
  else if action < 0 then env.reduceBy c (action.toInt.natAbs - 1)
  else stop c c.lookahead.pos (.unexpectedToken (env.terminalName c.lookahead.symbol))

def run : Nat → Configuration V σ ρ → Option (Result V σ ρ)
  | 0, _ => none
  | fuel + 1, c =>
    match env.step c with
    | .running c => run fuel c
    | .stopped r => some r

-- Parses until a reduction accepts or something is wrong, in at most `fuel` steps.
def parse (fuel : Nat) (source : σ) (memory : ρ) : Option (Result V σ ρ) :=
  match env.next source with
  | (.ok lookahead, source) => env.run fuel ⟨[], lookahead, source, memory⟩
  | (.error e, source) => some ⟨.error e, source, memory⟩

end Environment

end Stencil.Parser
