import Stencil.Proofs.Parser.Stack

namespace Stencil.Parser

variable {V σ ρ : Type}

def Step.memory : Step V σ ρ → ρ
  | running c => c.memory
  | stopped r => r.memory

namespace Environment

variable {env env' : Environment V σ ρ} {c : Configuration V σ ρ}

-- How a reduction goes on when its action is done.
def resume (tables : Tables) (c : Configuration V σ ρ) (left : Nat) (handle : Handle V)
    (below : List (Frame V)) : Except ParseError (Reduction V) × ρ → Step V σ ρ
  | (.error e, memory) => .stopped ⟨.error e, c.source, memory⟩
  | (.ok ⟨value, true⟩, memory) => .stopped ⟨.ok value, c.source, memory⟩
  | (.ok ⟨value, false⟩, memory) =>
    if tables.gotoAt (topState below) left < 0 then
      .stopped ⟨.error ⟨handle.pos, .corruptTables ("no goto from state " ++
        toString (topState below) ++ " over non-terminal " ++ toString left)⟩, c.source, memory⟩
    else
      .running ⟨⟨left, value, (tables.gotoAt (topState below) left).toInt.toNat, handle.pos⟩ ::
        below, c.lookahead, c.source, memory⟩

variable {tables : Tables} {left : Nat} {handle : Handle V} {below : List (Frame V)}

theorem memory_resume (done : Except ParseError (Reduction V) × ρ) :
    (resume tables c left handle below done).memory = done.2 := by
  obtain ⟨e | ⟨value, accepted⟩, memory⟩ := done
  · rfl
  · cases accepted with
    | true => rfl
    | false =>
        rw [resume]
        split
        · rfl
        · rfl

theorem resume_error {done : Except ParseError (Reduction V) × ρ} {e : ParseError}
    (h : done.1 = .error e) :
    resume tables c left handle below done = .stopped ⟨.error e, c.source, done.2⟩ := by
  obtain ⟨result, memory⟩ := done
  cases h
  rfl

-- A reduction stops before its action, or it depends on the parser by its tables and its action
-- alone.
theorem reduceBy_cases (htables : env'.tables = env.tables) (c : Configuration V σ ρ) (p : Nat) :
    env'.reduceBy c p = env.reduceBy c p ∧ (env.reduceBy c p).memory = c.memory ∨
    ∃ left handle below,
      env.reduceBy c p = resume env.tables c left handle below (env.reduce p handle c.memory) ∧
      env'.reduceBy c p =
        resume env.tables c left handle below (env'.reduce p handle c.memory) := by
  have hresume : ∀ {env : Environment V σ ρ} {left length : Nat},
      env.tables.productionAt p = some (left, length) → ¬ length > c.stack.length →
      env.reduceBy c p = resume env.tables c left ⟨(c.stack.take length).reverse⟩
        (c.stack.drop length) (env.reduce p ⟨(c.stack.take length).reverse⟩ c.memory) := by
    intro env left length hsides hlength
    rw [reduceBy, hsides]
    dsimp only
    rw [if_neg hlength]
    rcases env.reduce p ⟨(c.stack.take length).reverse⟩ c.memory with
      ⟨e | ⟨value, accepted⟩, memory⟩
    · rfl
    · cases accepted with
      | true => rfl
      | false => rfl
  cases hsides : env.tables.productionAt p with
  | none =>
      rw [reduceBy, reduceBy, htables, hsides]
      exact .inl ⟨rfl, rfl⟩
  | some sides =>
      obtain ⟨left, length⟩ := sides
      by_cases hlength : length > c.stack.length
      · rw [reduceBy, reduceBy, htables, hsides]
        dsimp only
        rw [if_pos hlength, if_pos hlength]
        exact .inl ⟨rfl, rfl⟩
      · have hsides' : env'.tables.productionAt p = some (left, length) := htables ▸ hsides
        exact .inr ⟨left, _, _, hresume hsides hlength, htables ▸ hresume hsides' hlength⟩

-- What all actions keep of the memory, every step keeps.
theorem step_keeps {P : ρ → Prop} (hkeep : ∀ p handle m, P m → P (env.reduce p handle m).2)
    (hc : P c.memory) : P (env.step c).memory := by
  rw [step]
  split
  · rw [shift]
    split
    · exact hc
    · exact hc
  · split
    · rcases reduceBy_cases (rfl : env.tables = env.tables) c _ with
        ⟨-, hmemory⟩ | ⟨_, _, _, hresume, -⟩
      · rw [hmemory]
        exact hc
      · rw [hresume, memory_resume]
        exact hkeep _ _ _ hc
    · exact hc

theorem run_keeps {P : ρ → Prop} (hkeep : ∀ p handle m, P m → P (env.reduce p handle m).2)
    (hc : P c.memory) {fuel : Nat} {r : Result V σ ρ} (hr : env.run fuel c = some r) :
    P r.memory := by
  have hlast : (P ∘ Result.memory) r := by
    refine run_induction (P ∘ Configuration.memory) (fun hc hstep => ?_) (fun hc hstep => ?_) hc hr
    · have hnext := step_keeps hkeep hc
      rwa [hstep] at hnext
    · have hnext := step_keeps hkeep hc
      rwa [hstep] at hnext
  exact hlast

end Environment

-- Two parsers that read the same. Their actions do the same while the memory is sure, up to one
-- that fails in the first parser alone; what the second one remembers is marked from then on.
structure Environment.Parts (sure : ρ → Prop) (marked : ParseError → ρ → Prop)
    (env env' : Environment V σ ρ) : Prop where
  tables : env'.tables = env.tables
  terminalNames : env'.terminalNames = env.terminalNames
  next : env'.next = env.next
  reduce : ∀ p handle m, sure m →
    env'.reduce p handle m = env.reduce p handle m ∧ sure (env.reduce p handle m).2 ∨
    ∃ e, (env.reduce p handle m).1 = .error e ∧ marked e (env'.reduce p handle m).2
  marked : ∀ e p handle m, marked e m → marked e (env'.reduce p handle m).2

-- The steps of two parsers that part.
inductive Step.Parts (sure : ρ → Prop) (marked : ParseError → ρ → Prop) :
    Step V σ ρ → Step V σ ρ → Prop
  | together {s : Step V σ ρ} (h : sure s.memory) : Parts sure marked s s
  | parted {r : Result V σ ρ} {s' : Step V σ ρ} {e : ParseError} (hvalue : r.value = .error e)
      (hmarked : marked e s'.memory) : Parts sure marked (.stopped r) s'

namespace Environment.Parts

variable {sure : ρ → Prop} {marked : ParseError → ρ → Prop} {env env' : Environment V σ ρ}
  {c : Configuration V σ ρ} (h : env.Parts sure marked env')

include h

theorem reduceBy (hc : sure c.memory) (p : Nat) :
    Step.Parts sure marked (env.reduceBy c p) (env'.reduceBy c p) := by
  rcases reduceBy_cases h.tables c p with ⟨hsame, hmemory⟩ | ⟨_, handle, _, hresume, hresume'⟩
  · rw [hsame]
    exact .together (hmemory ▸ hc)
  · rw [hresume, hresume']
    rcases h.reduce p handle c.memory hc with ⟨heq, hsure⟩ | ⟨e, he, hmarked⟩
    · rw [heq]
      exact .together (memory_resume _ ▸ hsure)
    · rw [resume_error he]
      exact .parted rfl (memory_resume _ ▸ hmarked)

theorem step (hc : sure c.memory) : Step.Parts sure marked (env.step c) (env'.step c) := by
  simp only [Environment.step, h.tables, terminalName, h.terminalNames]
  split
  · simp only [shift, h.next]
    split
    · exact .together hc
    · exact .together hc
  · split
    · exact h.reduceBy hc _
    · exact .together hc

-- Both runs have the same result, or the first one fails and the result of the second one is
-- marked.
theorem run {fuel : Nat} (hc : sure c.memory) {r r' : Result V σ ρ} (hr : env.run fuel c = some r)
    (hr' : env'.run fuel c = some r') :
    r' = r ∧ sure r.memory ∨ ∃ e, r.value = .error e ∧ marked e r'.memory := by
  induction fuel generalizing c with
  | zero => cases hr
  | succ fuel ih =>
      have hstep := h.step hc
      rw [Environment.run] at hr hr'
      generalize env.step c = s at hstep hr
      generalize env'.step c = s' at hstep hr'
      cases hstep with
      | together hsure =>
          cases s with
          | running next => exact ih hsure hr hr'
          | stopped last =>
              cases hr
              cases hr'
              exact .inl ⟨rfl, hsure⟩
      | @parted last _ e hvalue hmarked =>
          cases hr
          refine .inr ⟨e, hvalue, ?_⟩
          cases s' with
          | running next =>
              exact run_keeps (h.marked e) hmarked hr'
          | stopped last' =>
              cases hr'
              exact hmarked

theorem parse {fuel : Nat} {source : σ} {m : ρ} (hm : sure m) {r r' : Result V σ ρ}
    (hr : env.parse fuel source m = some r) (hr' : env'.parse fuel source m = some r') :
    r' = r ∧ sure r.memory ∨ ∃ e, r.value = .error e ∧ marked e r'.memory := by
  rw [Environment.parse] at hr hr'
  rw [h.next] at hr'
  rcases hnext : env.next source with ⟨e | lookahead, source'⟩
  · rw [hnext] at hr hr'
    cases hr
    cases hr'
    exact .inl ⟨rfl, hm⟩
  · rw [hnext] at hr hr'
    exact h.run hm hr hr'

end Environment.Parts

end Stencil.Parser
