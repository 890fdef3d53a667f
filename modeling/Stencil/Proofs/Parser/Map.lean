import Stencil.Parser.Machine

namespace Stencil.Parser

variable {V W σ ρ : Type}

section

variable (f : V → W)

def Input.map (i : Input V) : Input W := ⟨i.symbol, f i.value, i.pos⟩

def Frame.map (x : Frame V) : Frame W := ⟨x.symbol, f x.value, x.state, x.pos⟩

def Handle.map (h : Handle V) : Handle W := ⟨h.frames.map (Frame.map f)⟩

def Reduction.map (r : Reduction V) : Reduction W := ⟨f r.value, r.accepted⟩

def Configuration.map (c : Configuration V σ ρ) : Configuration W σ ρ :=
  ⟨c.stack.map (Frame.map f), c.lookahead.map f, c.source, c.memory⟩

def Result.map (r : Result V σ ρ) : Result W σ ρ := ⟨r.value.map f, r.source, r.memory⟩

def Step.map : Step V σ ρ → Step W σ ρ
  | .running c => .running (c.map f)
  | .stopped r => .stopped (r.map f)

end

variable {f : V → W}

@[simp] theorem Handle.pos_map (h : Handle V) : (h.map f).pos = h.pos := by
  simp only [Handle.pos, Handle.map, List.head?_map, Option.map_map]
  rfl

@[simp] theorem Handle.posAt_map (h : Handle V) (i : Nat) : (h.map f).posAt i = h.posAt i := by
  rw [Handle.posAt, Handle.posAt, Handle.pos_map]
  simp only [Handle.map, List.getElem?_map, Option.map_map]
  rfl

@[simp] theorem Handle.value?_map (h : Handle V) (i : Nat) :
    (h.map f).value? i = (h.value? i).map f := by
  simp only [Handle.value?, Handle.map, List.getElem?_map, Option.map_map]
  rfl

theorem topState_map (stack : List (Frame V)) :
    topState (stack.map (Frame.map f)) = topState stack := by
  cases stack <;> rfl

-- The second environment makes the image of every value that the first one makes, from the images
-- of the values that the first one has.
structure Environment.Maps (f : V → W) (env : Environment V σ ρ) (env' : Environment W σ ρ) :
    Prop where
  tables : env'.tables = env.tables
  terminalNames : env'.terminalNames = env.terminalNames
  next : ∀ source, env'.next source = ((env.next source).1.map (Input.map f), (env.next source).2)
  reduce : ∀ p handle memory, env'.reduce p (handle.map f) memory =
    ((env.reduce p handle memory).1.map (Reduction.map f), (env.reduce p handle memory).2)

namespace Environment.Maps

variable {env : Environment V σ ρ} {env' : Environment W σ ρ} (h : env.Maps f env')

include h

theorem shift_map (c : Configuration V σ ρ) (target : Nat) :
    env'.shift (c.map f) target = (env.shift c target).map f := by
  simp only [Environment.shift, Configuration.map, h.next]
  rcases env.next c.source with ⟨e | lookahead, source⟩
  · rfl
  · rfl

theorem reduceBy_map (c : Configuration V σ ρ) (production : Nat) :
    env'.reduceBy (c.map f) production = (env.reduceBy c production).map f := by
  simp only [Environment.reduceBy, h.tables]
  cases env.tables.productionAt production with
  | none => rfl
  | some sides =>
      obtain ⟨left, length⟩ := sides
      have hhandle : (⟨((c.map f).stack.take length).reverse⟩ : Handle W) =
          Handle.map f ⟨(c.stack.take length).reverse⟩ := by
        simp [Configuration.map, Handle.map, List.map_take]
      have hbelow : (c.map f).stack.drop length = (c.stack.drop length).map (Frame.map f) := by
        simp [Configuration.map, List.map_drop]
      have hlength : (c.map f).stack.length = c.stack.length := by simp [Configuration.map]
      have hmemory : (c.map f).memory = c.memory := rfl
      simp only [hlength, hhandle, hbelow, hmemory, h.reduce, Handle.pos_map, topState_map]
      split
      · rfl
      · rcases env.reduce production ⟨(c.stack.take length).reverse⟩ c.memory with
          ⟨e | ⟨value, accepted⟩, memory⟩
        · rfl
        · cases accepted with
          | true => rfl
          | false =>
              simp only [Except.map, Reduction.map]
              split
              · rfl
              · rfl

theorem step_map (c : Configuration V σ ρ) : env'.step (c.map f) = (env.step c).map f := by
  have hstack : topState (c.map f).stack = topState c.stack := topState_map c.stack
  have hsymbol : (c.map f).lookahead.symbol = c.lookahead.symbol := rfl
  simp only [Environment.step, h.tables, hstack, hsymbol, h.shift_map, h.reduceBy_map,
    Environment.terminalName, h.terminalNames]
  split
  · rfl
  · split
    · rfl
    · rfl

theorem run_map (fuel : Nat) (c : Configuration V σ ρ) :
    env'.run fuel (c.map f) = (env.run fuel c).map (Result.map f) := by
  induction fuel generalizing c with
  | zero => rfl
  | succ fuel ih =>
      rw [Environment.run, Environment.run, h.step_map]
      cases env.step c with
      | running next => exact ih next
      | stopped r => rfl

-- The whole parse with the second environment gives the image of the one with the first.
theorem parse_map (fuel : Nat) (source : σ) (memory : ρ) :
    env'.parse fuel source memory = (env.parse fuel source memory).map (Result.map f) := by
  rw [Environment.parse, Environment.parse, h.next]
  rcases env.next source with ⟨e | lookahead, source'⟩
  · rfl
  · exact h.run_map fuel ⟨[], lookahead, source', memory⟩

end Environment.Maps

end Stencil.Parser
