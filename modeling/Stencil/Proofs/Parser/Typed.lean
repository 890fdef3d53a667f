import Stencil.Proofs.Parser.Stack

namespace Stencil.Parser

variable {V σ ρ : Type} {g : Grammar} {env : Environment V σ ρ} {Fits : Symbol → V → Prop}
  {Allowed : ParseError → Prop}

-- Tokens and reductions give values that fit their symbols, and `Allowed` covers what they complain
-- about. Rule 0 is the one that ends a parse.
structure Environment.Typed (env : Environment V σ ρ) (g : Grammar) (Fits : Symbol → V → Prop)
    (Allowed : ParseError → Prop) : Prop where
  token : ∀ {source input source'}, env.next source = (.ok input, source') →
    Fits (.terminal input.symbol) input.value
  noToken : ∀ {source e source'}, env.next source = (.error e, source') → Allowed e
  reduce : ∀ {p rule handle memory reduction memory'}, g.rules[p]? = some rule →
    List.Forall₂ Fits rule.right (handle.frames.map Frame.value) →
    env.reduce p handle memory = (.ok reduction, memory') →
    Fits (.nonterminal rule.left) reduction.value ∧ reduction.accepted = decide (p = 0)
  noReduce : ∀ {p rule handle memory e memory'}, g.rules[p]? = some rule →
    List.Forall₂ Fits rule.right (handle.frames.map Frame.value) →
    env.reduce p handle memory = (.error e, memory') → Allowed e
  unexpected : ∀ {pos found}, Allowed ⟨pos, .unexpectedToken found⟩

-- The values on the stack fit the symbols of a path, and the lookahead fits its terminal.
structure Fitting (g : Grammar) (Fits : Symbol → V → Prop) (c : Configuration V σ ρ) : Prop where
  path : ∃ symbols, Path g Fits symbols c.stack
  lookahead : Fits (.terminal c.lookahead.symbol) c.lookahead.value

-- A value that fits the start symbol, or an error that is allowed.
def Answer (g : Grammar) (Fits : Symbol → V → Prop) (Allowed : ParseError → Prop) :
    Except ParseError V → Prop
  | .ok value => ∃ rule, g.rules[0]? = some rule ∧ Fits (.nonterminal rule.left) value
  | .error e => Allowed e

namespace Fitting

variable {c : Configuration V σ ρ}

theorem running (h : Fitting g Fits c) (henv : env.Typed g Fits Allowed)
    (hserves : env.tables.Serves g) (hstart : g.StartUnused) (haccepts : env.AcceptsStart)
    {c' : Configuration V σ ρ} (hstep : env.step c = .running c') : Fitting g Fits c' := by
  obtain ⟨symbols, hpath⟩ := h.path
  cases hpath.move hserves hstart haccepts with
  | shift q edge step =>
      rw [step, Environment.shift] at hstep
      split at hstep
      · rename_i lookahead source hnext
        cases hstep
        exact ⟨⟨_, .push hpath edge h.lookahead⟩, henv.token hnext⟩
      · cases hstep
  | reduce p rule hrule rest handle below hsymbols hstack hhandle hbelow hbegin hp target edge step =>
      rw [step, Environment.reduced] at hstep
      split at hstep
      · cases hstep
      · cases hstep
      · rename_i value memory hreduce
        cases hstep
        exact ⟨⟨_, .push hbelow edge (henv.reduce hrule hhandle hreduce).1⟩, h.lookahead⟩
  | accept rule hrule handle hsymbols hstack hhandle heof step =>
      rw [step, Environment.reduced] at hstep
      split at hstep
      · cases hstep
      · cases hstep
      · rename_i hreduce
        exact absurd (haccepts hreduce) (by simp)
  | fail hnone step =>
      rw [step] at hstep
      cases hstep

theorem stopped (h : Fitting g Fits c) (henv : env.Typed g Fits Allowed)
    (hserves : env.tables.Serves g) (hstart : g.StartUnused) (haccepts : env.AcceptsStart)
    {r : Result V σ ρ} (hstep : env.step c = .stopped r) : Answer g Fits Allowed r.value := by
  obtain ⟨symbols, hpath⟩ := h.path
  cases hpath.move hserves hstart haccepts with
  | shift q edge step =>
      rw [step, Environment.shift] at hstep
      split at hstep
      · cases hstep
      · rename_i e source hnext
        cases hstep
        exact henv.noToken hnext
  | reduce p rule hrule rest handle below hsymbols hstack hhandle hbelow hbegin hp target edge step =>
      rw [step, Environment.reduced] at hstep
      split at hstep
      · rename_i e memory hreduce
        cases hstep
        exact henv.noReduce hrule hhandle hreduce
      · rename_i value memory hreduce
        have haccepted := (henv.reduce hrule hhandle hreduce).2
        simp [hp] at haccepted
      · cases hstep
  | accept rule hrule handle hsymbols hstack hhandle heof step =>
      rw [step, Environment.reduced] at hstep
      split at hstep
      · rename_i e memory hreduce
        cases hstep
        exact henv.noReduce hrule hhandle hreduce
      · rename_i value memory hreduce
        cases hstep
        exact ⟨rule, hrule, (henv.reduce hrule hhandle hreduce).1⟩
      · cases hstep
  | fail hnone step =>
      rw [step] at hstep
      cases hstep
      exact henv.unexpected

end Fitting

-- A parse with the tables of a grammar goes wrong in allowed ways only.
theorem Environment.Typed.parse (henv : env.Typed g Fits Allowed) (hserves : env.tables.Serves g)
    (hstart : g.StartUnused) (haccepts : env.AcceptsStart) {fuel : Nat} {source : σ} {memory : ρ}
    {r : Result V σ ρ} (h : env.parse fuel source memory = some r) :
    Answer g Fits Allowed r.value := by
  rw [Environment.parse] at h
  split at h
  · rename_i lookahead source' hnext
    exact Environment.run_induction (Fitting g Fits)
      (fun hc hstep => hc.running henv hserves hstart haccepts hstep)
      (fun hc hstep => hc.stopped henv hserves hstart haccepts hstep)
      ⟨⟨[], .empty⟩, henv.token hnext⟩ h
  · rename_i e source' hnext
    cases h
    exact henv.noToken hnext

-- Without tables every token is unexpected.
theorem Environment.step_of_empty (hempty : env.tables = .empty) (c : Configuration V σ ρ) :
    env.step c =
      stop c c.lookahead.pos (.unexpectedToken (env.terminalName c.lookahead.symbol)) := by
  have haction : env.tables.actionAt (topState c.stack) c.lookahead.symbol = 0 := by
    rw [hempty]
    simp [Tables.actionAt, Tables.empty]
  simp [Environment.step, haction]

theorem Environment.Typed.parse_of_empty (henv : env.Typed g Fits Allowed)
    (hempty : env.tables = .empty) {fuel : Nat} (hfuel : 0 < fuel) (source : σ) (memory : ρ) :
    ∃ r, env.parse fuel source memory = some r ∧ Answer g Fits Allowed r.value := by
  obtain ⟨fuel, rfl⟩ := Nat.exists_eq_succ_of_ne_zero (Nat.ne_of_gt hfuel)
  rw [Environment.parse]
  split
  · simp only [Environment.run, Environment.step_of_empty hempty]
    exact ⟨_, rfl, henv.unexpected⟩
  · rename_i e source' hnext
    exact ⟨_, rfl, henv.noToken hnext⟩

end Stencil.Parser
