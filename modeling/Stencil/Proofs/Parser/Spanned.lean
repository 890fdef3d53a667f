import Stencil.Proofs.Parser.Stack

namespace Stencil.Parser

variable {V σ ρ : Type} {g : Grammar} {env : Environment V σ ρ}
  {Stands : Symbol → V → Position → σ → σ → Prop} {Known : σ → Prop}

-- Symbols that were read one behind the other: where one ends in the source, the next begins.
inductive Spans (Stands : Symbol → V → Position → σ → σ → Prop) (Known : σ → Prop) :
    List Symbol → List (Frame V) → σ → σ → Prop
  | nil {source} (known : Known source) : Spans Stands Known [] [] source source
  | cons {symbol symbols frame frames source middle source'} (known : Known source)
      (first : Stands symbol frame.value frame.pos source middle)
      (others : Spans Stands Known symbols frames middle source') :
      Spans Stands Known (symbol :: symbols) (frame :: frames) source source'

namespace Spans

variable {symbols symbols' : List Symbol} {frames frames' : List (Frame V)}
  {source middle source' : σ}

theorem known_first (h : Spans Stands Known symbols frames source source') : Known source := by
  cases h with
  | nil known => exact known
  | cons known _ _ => exact known

theorem known_last (h : Spans Stands Known symbols frames source source') : Known source' := by
  induction h with
  | nil known => exact known
  | cons _ _ _ ih => exact ih

theorem length_eq (h : Spans Stands Known symbols frames source source') :
    symbols.length = frames.length := by
  induction h with
  | nil _ => rfl
  | cons _ _ _ ih => rw [List.length_cons, List.length_cons, ih]

theorem append (h : Spans Stands Known symbols frames source middle)
    (h' : Spans Stands Known symbols' frames' middle source') :
    Spans Stands Known (symbols ++ symbols') (frames ++ frames') source source' := by
  induction h with
  | nil _ => exact h'
  | cons known first _ ih => exact .cons known first (ih h')

theorem of_append (hlength : symbols.length = frames.length)
    (h : Spans Stands Known (symbols ++ symbols') (frames ++ frames') source source') :
    ∃ middle, Spans Stands Known symbols frames source middle ∧
      Spans Stands Known symbols' frames' middle source' := by
  induction symbols generalizing frames source with
  | nil =>
      obtain rfl := List.length_eq_zero_iff.mp hlength.symm
      exact ⟨source, .nil h.known_first, h⟩
  | cons symbol symbols ih =>
      cases frames with
      | nil => cases hlength
      | cons frame frames =>
          cases h with
          | cons known first others =>
              obtain ⟨middle, hleft, hright⟩ := ih (Nat.succ.inj hlength) others
              exact ⟨middle, .cons known first hleft, hright⟩

theorem single {symbol : Symbol} {frame : Frame V} (known : Known source)
    (h : Stands symbol frame.value frame.pos source source') (known' : Known source') :
    Spans Stands Known [symbol] [frame] source source' :=
  .cons known h (.nil known')

-- What stands at one place of a right side.
theorem get (h : Spans Stands Known symbols frames source source') {i : Nat} {symbol : Symbol}
    (hi : symbols[i]? = some symbol) :
    ∃ frame first last, frames[i]? = some frame ∧ Known first ∧
      Stands symbol frame.value frame.pos first last := by
  induction h generalizing i with
  | nil _ => cases hi
  | cons known first _ ih =>
      cases i with
      | zero =>
          cases hi
          exact ⟨_, _, _, rfl, known, first⟩
      | succ i => exact ih hi

end Spans

-- Tokens span what the source gives for them, and a reduction spans its handle.
structure Environment.Spanned (env : Environment V σ ρ) (g : Grammar)
    (Stands : Symbol → V → Position → σ → σ → Prop) (Known : σ → Prop) : Prop where
  token : ∀ {source input source'}, Known source → env.next source = (.ok input, source') →
    Stands (.terminal input.symbol) input.value input.pos source source' ∧ Known source'
  reduce : ∀ {p rule handle memory reduction memory' source source'}, g.rules[p]? = some rule →
    Spans Stands Known rule.right handle.frames source source' →
    env.reduce p handle memory = (.ok reduction, memory') →
    Stands (.nonterminal rule.left) reduction.value handle.pos source source'

-- Why a parse ends without a value: the source gives no token, an action fails over what it has
-- read, or a token is not expected.
inductive Complaint (env : Environment V σ ρ) (g : Grammar)
    (Stands : Symbol → V → Position → σ → σ → Prop) (Known : σ → Prop) (e : ParseError) : Prop
  | token {source source'} (known : Known source) (next : env.next source = (.error e, source'))
  | action {p rule handle memory memory' source source'} (hrule : g.rules[p]? = some rule)
      (spans : Spans Stands Known rule.right handle.frames source source')
      (reduce : env.reduce p handle memory = (.error e, memory'))
  | unexpected {found} (fault : e.fault = .unexpectedToken found)

-- What is on the stack was read in one piece, and the lookahead right behind it.
structure Unbroken (g : Grammar) (Stands : Symbol → V → Position → σ → σ → Prop) (Known : σ → Prop)
    (c : Configuration V σ ρ) : Prop where
  stack : ∃ symbols start behind, Path g (fun _ _ => True) symbols c.stack ∧
    Spans Stands Known symbols.reverse c.stack.reverse start behind ∧
    Stands (.terminal c.lookahead.symbol) c.lookahead.value c.lookahead.pos behind c.source
  source : Known c.source

-- A value that stands somewhere, or an error with its reason.
def Accounted (env : Environment V σ ρ) (g : Grammar)
    (Stands : Symbol → V → Position → σ → σ → Prop) (Known : σ → Prop) : Except ParseError V → Prop
  | .ok value => ∃ symbol pos source source', Stands symbol value pos source source'
  | .error e => Complaint env g Stands Known e

namespace Unbroken

variable {c : Configuration V σ ρ}

-- The handle on top of the stack and what is below it were each read in one piece.
theorem handle {symbols rest right : List Symbol} {stack handle below : List (Frame V)}
    {start behind : σ} (hsymbols : symbols = right.reverse ++ rest)
    (hstack : stack = handle.reverse ++ below) (hlength : right.length = handle.length)
    (h : Spans Stands Known symbols.reverse stack.reverse start behind) :
    ∃ middle, Spans Stands Known rest.reverse below.reverse start middle ∧
      Spans Stands Known right handle middle behind := by
  rw [hsymbols, hstack, List.reverse_append, List.reverse_append, List.reverse_reverse,
    List.reverse_reverse] at h
  have hall := h.length_eq
  simp only [List.length_append, List.length_reverse] at hall
  have hbelow : rest.reverse.length = below.reverse.length := by
    rw [List.length_reverse, List.length_reverse]
    omega
  exact h.of_append hbelow

theorem running (h : Unbroken g Stands Known c) (henv : env.Spanned g Stands Known)
    (hserves : env.tables.Serves g) (hstart : g.StartUnused) (haccepts : env.AcceptsStart)
    {c' : Configuration V σ ρ} (hstep : env.step c = .running c') :
    Unbroken g Stands Known c' := by
  obtain ⟨symbols, start, behind, hpath, hspans, hlookahead⟩ := h.stack
  cases hpath.move hserves hstart haccepts with
  | shift q edge step =>
      rw [step, Environment.shift] at hstep
      split at hstep
      · rename_i lookahead source hnext
        cases hstep
        obtain ⟨hnew, hsource⟩ := henv.token h.source hnext
        refine ⟨⟨_, start, c.source, .push hpath edge trivial, ?_, hnew⟩, hsource⟩
        rw [List.reverse_cons, List.reverse_cons]
        exact hspans.append (.single hspans.known_last hlookahead h.source)
      · cases hstep
  | reduce p rule hrule rest handle below hsymbols hstack hhandle hbelow hbegin hp target edge
      step =>
      rw [step, Environment.reduced] at hstep
      split at hstep
      · cases hstep
      · cases hstep
      · rename_i value memory hreduce
        cases hstep
        have hlength : rule.right.length = handle.length := by simpa using hhandle.length_eq
        obtain ⟨middle, hrest, hpieces⟩ :=
          Unbroken.handle hsymbols hstack hlength hspans
        have hvalue := henv.reduce hrule hpieces hreduce
        refine ⟨⟨_, start, behind, .push hbelow edge trivial, ?_, hlookahead⟩, h.source⟩
        rw [List.reverse_cons, List.reverse_cons]
        exact hrest.append (.single hrest.known_last hvalue hspans.known_last)
  | accept rule hrule handle hsymbols hstack hhandle heof step =>
      rw [step, Environment.reduced] at hstep
      split at hstep
      · cases hstep
      · cases hstep
      · rename_i hreduce
        exact absurd (haccepts hreduce) (by simp)
  | fail hnone step =>
      rw [step] at hstep
      cases hstep

theorem stopped (h : Unbroken g Stands Known c) (henv : env.Spanned g Stands Known)
    (hserves : env.tables.Serves g) (hstart : g.StartUnused) (haccepts : env.AcceptsStart)
    {r : Result V σ ρ} (hstep : env.step c = .stopped r) :
    Accounted env g Stands Known r.value := by
  obtain ⟨symbols, start, behind, hpath, hspans, -⟩ := h.stack
  -- Both reductions are over a handle on top of the stack.
  have hreduced : ∀ {p rule rest handle below left target},
      g.rules[p]? = some rule → symbols = rule.right.reverse ++ rest →
      c.stack = handle.reverse ++ below → rule.right.length = handle.length →
      env.reduced c p ⟨handle⟩ below left target = .stopped r →
      Accounted env g Stands Known r.value := by
    intro p rule rest handle below left target hrule hsymbols hstack hlength hstopped
    obtain ⟨middle, -, hpieces⟩ := Unbroken.handle hsymbols hstack hlength hspans
    rw [Environment.reduced] at hstopped
    split at hstopped
    · rename_i e memory hreduce
      cases hstopped
      exact .action hrule hpieces hreduce
    · rename_i value memory hreduce
      cases hstopped
      exact ⟨_, _, _, _, henv.reduce hrule hpieces hreduce⟩
    · cases hstopped
  cases hpath.move hserves hstart haccepts with
  | shift q edge step =>
      rw [step, Environment.shift] at hstep
      split at hstep
      · cases hstep
      · rename_i e source hnext
        cases hstep
        exact .token h.source hnext
  | reduce p rule hrule rest handle below hsymbols hstack hhandle hbelow hbegin hp target edge
      step =>
      have hlength : rule.right.length = handle.length := by simpa using hhandle.length_eq
      exact hreduced hrule hsymbols hstack hlength (step ▸ hstep)
  | accept rule hrule handle hsymbols hstack hhandle heof step =>
      have hlength : rule.right.length = handle.length := by simpa using hhandle.length_eq
      rw [← List.append_nil rule.right.reverse] at hsymbols
      rw [← List.append_nil handle.reverse] at hstack
      exact hreduced hrule hsymbols hstack hlength (step ▸ hstep)
  | fail hnone step =>
      rw [step] at hstep
      cases hstep
      exact .unexpected rfl

end Unbroken

-- A parse accounts for its value or its error.
theorem Environment.Spanned.parse (henv : env.Spanned g Stands Known) (hserves : env.tables.Serves g)
    (hstart : g.StartUnused) (haccepts : env.AcceptsStart) {fuel : Nat} {source : σ} {memory : ρ}
    (hsource : Known source) {r : Result V σ ρ} (h : env.parse fuel source memory = some r) :
    Accounted env g Stands Known r.value := by
  rw [Environment.parse] at h
  split at h
  · rename_i lookahead source' hnext
    obtain ⟨hlookahead, hknown⟩ := henv.token hsource hnext
    exact Environment.run_induction (Unbroken g Stands Known)
      (fun hc hstep => hc.running henv hserves hstart haccepts hstep)
      (fun hc hstep => hc.stopped henv hserves hstart haccepts hstep)
      ⟨⟨[], source, source, .empty, .nil hsource, hlookahead⟩, hknown⟩ h
  · rename_i e source' hnext
    cases h
    exact .token hsource hnext

section Placed

variable {Stands : Symbol → V → Position → Prop}

-- Tokens stand in their places as long as the source is a known one, and a reduction puts its value
-- in the place of its handle. A handle that is empty has no place of its own.
structure Environment.Placed (env : Environment V σ ρ) (g : Grammar)
    (Stands : Symbol → V → Position → Prop) (Known : σ → Prop) : Prop where
  token : ∀ {source input source'}, Known source → env.next source = (.ok input, source') →
    Stands (.terminal input.symbol) input.value input.pos ∧ Known source'
  reduce : ∀ {p rule handle memory reduction memory'}, g.rules[p]? = some rule →
    List.Forall₂ (fun s (x : Frame V) => Stands s x.value x.pos) rule.right handle.frames →
    env.reduce p handle memory = (.ok reduction, memory') →
    Stands (.nonterminal rule.left) reduction.value handle.pos

-- Places do not depend on where a symbol ends.
theorem Spans.forall₂ {symbols : List Symbol} {frames : List (Frame V)} {source source' : σ}
    (h : Spans (fun s v pos _ _ => Stands s v pos) Known symbols frames source source') :
    List.Forall₂ (fun s (x : Frame V) => Stands s x.value x.pos) symbols frames := by
  induction h with
  | nil _ => exact .nil
  | cons _ first _ ih => exact .cons first ih

theorem Environment.Placed.spanned (henv : env.Placed g Stands Known) :
    env.Spanned g (fun s v pos _ _ => Stands s v pos) Known where
  token := henv.token
  reduce hrule hspans hreduce := henv.reduce hrule hspans.forall₂ hreduce

-- What a parse gives stands in a place.
theorem Environment.Placed.parse (henv : env.Placed g Stands Known) (hserves : env.tables.Serves g)
    (hstart : g.StartUnused) (haccepts : env.AcceptsStart) {fuel : Nat} {source : σ} {memory : ρ}
    (hsource : Known source) {r : Result V σ ρ} (h : env.parse fuel source memory = some r)
    {value : V} (hvalue : r.value = .ok value) : ∃ symbol pos, Stands symbol value pos := by
  have haccounted := henv.spanned.parse hserves hstart haccepts hsource h
  rw [hvalue] at haccounted
  obtain ⟨symbol, pos, -, -, hstands⟩ := haccounted
  exact ⟨symbol, pos, hstands⟩

end Placed

end Stencil.Parser
