import Stencil.Proofs.Parser.Map
import Stencil.Proofs.Parser.Stack

namespace Stencil.Parser

variable {X V W σ ρ : Type} {g : Grammar}

-- Values that were made one after the other, each from the memory that the one before it left.
inductive Threaded {S : Type} (made : S → X → ρ → ρ → Prop) : List S → List X → ρ → ρ → Prop
  | nil {m : ρ} : Threaded made [] [] m m
  | cons {symbol : S} {symbols : List S} {value : X} {values : List X} {m middle m' : ρ}
      (first : made symbol value m middle) (rest : Threaded made symbols values middle m') :
      Threaded made (symbol :: symbols) (value :: values) m m'

namespace Threaded

variable {S : Type} {made : S → X → ρ → ρ → Prop} {symbols more : List S} {values others : List X}
  {m middle m' : ρ}

theorem append (h : Threaded made symbols values m middle)
    (hmore : Threaded made more others middle m') :
    Threaded made (symbols ++ more) (values ++ others) m m' := by
  induction h with
  | nil => exact hmore
  | cons first rest ih => exact .cons first (ih hmore)

theorem length_eq (h : Threaded made symbols values m m') : symbols.length = values.length := by
  induction h with
  | nil => rfl
  | cons first rest ih => rw [List.length_cons, List.length_cons, ih]

-- The last symbols belong to the last values.
theorem split (h : Threaded made (symbols ++ more) (values ++ others) m m')
    (hlength : others.length = more.length) :
    ∃ middle, Threaded made symbols values m middle ∧ Threaded made more others middle m' := by
  have hfirst : symbols.length = values.length := by
    have hall := h.length_eq
    simp only [List.length_append] at hall
    omega
  induction symbols generalizing values m with
  | nil =>
      obtain rfl := List.length_eq_zero_iff.mp hfirst.symm
      exact ⟨m, .nil, h⟩
  | cons symbol symbols ih =>
      cases values with
      | nil => cases hfirst
      | cons value values =>
          cases h with
          | cons first rest =>
              obtain ⟨middle, hbefore, hbehind⟩ := ih rest (Nat.succ.inj hfirst)
              exact ⟨middle, .cons first hbefore, hbehind⟩

theorem of_map {A : Type} {made' : A → X → ρ → ρ → Prop} {name : A → S}
    (himp : ∀ {a x m m'}, made (name a) x m m' → made' a x m m') {as : List A}
    (h : Threaded made (as.map name) values m m') : Threaded made' as values m m' := by
  induction as generalizing values m with
  | nil =>
      cases h
      exact .nil
  | cons a as ih =>
      cases h with
      | cons first rest => exact .cons (himp first) (ih rest)

end Threaded

-- Whatever values are made of the symbols one after the other, they have the property.
def Always {S : Type} (made : S → X → ρ → ρ → Prop) : List S → (List X → ρ → Prop) → ρ → Prop
  | [], P, m => P [] m
  | symbol :: symbols, P, m => ∀ value m', made symbol value m m' →
    Always made symbols (fun values => P (value :: values)) m'

theorem Threaded.always {S : Type} {made : S → X → ρ → ρ → Prop} {symbols : List S}
    {values : List X} {P : List X → ρ → Prop} {m m' : ρ} (h : Threaded made symbols values m m')
    (hP : Always made symbols P m) : P values m' := by
  induction h generalizing P with
  | nil => exact hP
  | cons first rest ih => exact ih (hP _ _ first)

-- The handle of the values in the given places.
def Handle.ofValues (values : List X) (place : Nat → Frame Unit) : Handle X :=
  ⟨values.zipIdx.map fun (value, i) => (place i).map fun _ => value⟩

theorem Handle.exists_places (h : Handle X) :
    ∃ place, h = ofValues (h.frames.map Frame.value) place := by
  refine ⟨fun i => ((h.frames[i]?).map (Frame.map fun _ => ())).getD ⟨0, (), 0, ⟨0, 0⟩⟩, ?_⟩
  obtain ⟨frames⟩ := h
  simp only [ofValues, Handle.mk.injEq]
  refine List.ext_getElem? fun i => ?_
  rw [List.getElem?_map, List.getElem?_zipIdx, List.getElem?_map]
  cases hframe : frames[i]? with
  | none => simp
  | some frame => simp [hframe, Frame.map]

-- A reduction of one view of the values, where rule 0 alone ends the parse.
theorem Environment.reduceBy_view {env : Environment V σ ρ} {f : X → V}
    (hserves : env.tables.Serves g) {c : Configuration V σ ρ} {p : Nat} {rule : Rule}
    (hrule : g.rules[p]? = some rule) {handle below : List (Frame X)}
    (hstack : c.stack = (handle.reverse ++ below).map (Frame.map f))
    (hlength : handle.length = rule.right.length) {target : Nat}
    (hgoto : g.gotoOn (topState below) rule.left = some target ∨ p = 0)
    (hends : ∀ {reduction memory}, env.reduce p ((⟨handle⟩ : Handle X).map f) c.memory =
      (.ok reduction, memory) → reduction.accepted = decide (p = 0)) :
    env.reduceBy c p = env.reduced c p ((⟨handle⟩ : Handle X).map f) (below.map (Frame.map f))
      rule.left target := by
  apply reduceBy_eq hserves hrule
  · rw [hstack, List.map_append, List.map_reverse]
  · rw [List.length_map, hlength]
  · rw [topState_map]
    refine hgoto.imp id ?_
    rintro rfl value memory hsame
    simpa using hends hsame

section

variable (f : X → V) (f' : X → W)

-- Two environments read one input. What the first makes of it is one view of some value, what the
-- second makes of it another. The first keeps a memory, through which the value was made; the
-- second keeps none. Rule 0 is the one that ends a parse.
structure Environment.Readings (env : Environment V σ ρ) (env' : Environment W σ Unit)
    (g : Grammar) (made : Symbol → X → ρ → ρ → Prop) : Prop where
  tables : env'.tables = env.tables
  token : ∀ {source : σ} {input : Input V} {source' : σ}, env.next source = (.ok input, source') →
    ∃ x, input.value = f x ∧ env'.next source = (.ok ⟨input.symbol, f' x, input.pos⟩, source') ∧
      ∀ m, made (.terminal input.symbol) x m m
  reduce : ∀ {p : Nat} {rule : Rule} (handle : Handle X) {m middle : ρ} {reduction : Reduction V}
      {m' : ρ}, g.rules[p]? = some rule →
    Threaded made rule.right (handle.frames.map Frame.value) m middle →
    env.reduce p (handle.map f) middle = (.ok reduction, m') →
    ∃ x, reduction = ⟨f x, decide (p = 0)⟩ ∧
      env'.reduce p (handle.map f') () = (.ok ⟨f' x, decide (p = 0)⟩, ()) ∧
      made (.nonterminal rule.left) x m m'

-- The second view of a configuration.
def Configuration.view (c : Configuration X σ ρ) : Configuration W σ Unit :=
  ⟨c.stack.map (Frame.map f'), c.lookahead.map f', c.source, ()⟩

end

-- The states of the stack are those of a path, and its values were made from the bottom up.
structure MadeUp (g : Grammar) (made : Symbol → X → ρ → ρ → Prop) (start : ρ)
    (symbols : List Symbol) (c : Configuration X σ ρ) : Prop where
  path : Path g (fun _ _ => True) symbols c.stack
  threaded : Threaded made symbols.reverse (c.stack.reverse.map Frame.value) start c.memory
  lookahead : ∀ m, made (.terminal c.lookahead.symbol) c.lookahead.value m m

namespace Environment.Readings

variable {f : X → V} {f' : X → W} {env : Environment V σ ρ} {env' : Environment W σ Unit}
  {made : Symbol → X → ρ → ρ → Prop} {start : ρ} {symbols : List Symbol}
  {c : Configuration X σ ρ}

theorem shift_step (h : env.Readings f f' env' g made) (hc : MadeUp g made start symbols c)
    {q : Nat} (hedge : g.Edge (topState c.stack) (.terminal c.lookahead.symbol) q) :
    (∃ e source m, env.shift (c.map f) q = .stopped ⟨.error e, source, m⟩) ∨
      ∃ next : Configuration X σ ρ, env.shift (c.map f) q = .running (next.map f) ∧
        env'.shift (c.view f') q = .running (next.view f') ∧
        MadeUp g made start (.terminal c.lookahead.symbol :: symbols) next := by
  have hsource : (c.map f).source = c.source := rfl
  have hview : (c.view f').source = c.source := rfl
  simp only [Environment.shift, hsource, hview]
  rcases hnext : env.next c.source with ⟨e | input, source'⟩
  · exact .inl ⟨e, source', _, rfl⟩
  · obtain ⟨x, hvalue, hother, hmade⟩ := h.token hnext
    obtain ⟨symbol, value, pos⟩ := input
    subst hvalue
    refine .inr ⟨⟨⟨c.lookahead.symbol, c.lookahead.value, q, c.lookahead.pos⟩ :: c.stack,
      ⟨symbol, x, pos⟩, source', c.memory⟩, rfl, ?_, ?_⟩
    · rw [hother]
      rfl
    · refine ⟨.push hc.path hedge trivial, ?_, hmade⟩
      rw [List.reverse_cons, List.reverse_cons, List.map_append]
      exact hc.threaded.append (.cons (hc.lookahead _) .nil)

-- What a reduction makes of the frames of its handle.
theorem reduce_step (h : env.Readings f f' env' g made) (hserves : env.tables.Serves g)
    (hstart : g.StartUnused) (hc : MadeUp g made start symbols c) {p : Nat}
    (haction : g.actionOn (topState c.stack) c.lookahead.symbol = some (.reduce p)) :
    (∃ e source m, env.reduceBy (c.map f) p = .stopped ⟨.error e, source, m⟩) ∨
      (∃ rule x m, g.rules[0]? = some rule ∧ made (.nonterminal rule.left) x start m ∧
        env.reduceBy (c.map f) p = .stopped ⟨.ok (f x), c.source, m⟩ ∧
        env'.reduceBy (c.view f') p = .stopped ⟨.ok (f' x), c.source, ()⟩) ∨
      ∃ (next : Configuration X σ ρ) (symbols' : List Symbol),
        env.reduceBy (c.map f) p = .running (next.map f) ∧
        env'.reduceBy (c.view f') p = .running (next.view f') ∧
        MadeUp g made start symbols' next := by
  have hg := hserves.valid
  have hserves' : env'.tables.Serves g := h.tables ▸ hserves
  obtain ⟨rule, hrule, rest, handle, below, hsymbols, hstack, hhandle, hbelow, hbegin, hcase⟩ :=
    hc.path.of_reduce hg hstart haction
  have hlength : handle.length = rule.right.length := by
    rw [hhandle.length_eq, List.length_map]
  have hthreaded := hc.threaded
  rw [hsymbols, hstack, List.reverse_append, List.reverse_append, List.reverse_reverse,
    List.reverse_reverse, List.map_append] at hthreaded
  obtain ⟨middle, hbefore, hparts⟩ := hthreaded.split (by rw [List.length_map, hlength])
  have hstackV : (c.map f).stack = (handle.reverse ++ below).map (Frame.map f) :=
    congrArg (List.map (Frame.map f)) hstack
  have hstackW : (c.view f').stack = (handle.reverse ++ below).map (Frame.map f') :=
    congrArg (List.map (Frame.map f')) hstack
  -- A reduction that accepts looks for no goto, all others find theirs.
  obtain ⟨target, hgoto⟩ : ∃ target, g.gotoOn (topState below) rule.left = some target ∨ p = 0 := by
    rcases hcase with ⟨hp, -, -⟩ | ⟨-, target, hedge⟩
    · exact ⟨0, .inr hp⟩
    · exact ⟨target, .inl ((Grammar.gotoOn_eq_some hg).mpr hedge)⟩
  have hmemory : (c.map f).memory = c.memory := rfl
  rcases hreduce : env.reduce p ((⟨handle⟩ : Handle X).map f) c.memory with ⟨e | reduction, m'⟩
  · refine .inl ⟨e, c.source, m', ?_⟩
    rw [Environment.reduceBy_view hserves hrule hstackV hlength hgoto (by simp [hmemory, hreduce]),
      Environment.reduced, hmemory, hreduce]
    rfl
  · obtain ⟨x, rfl, hother, hmade⟩ := h.reduce ⟨handle⟩ hrule hparts hreduce
    have hother : env'.reduce p ((⟨handle⟩ : Handle X).map f') (c.view f').memory = _ := hother
    have hstepV := Environment.reduceBy_view hserves hrule hstackV hlength hgoto
      (by simp [hmemory, hreduce])
    have hstepW := Environment.reduceBy_view hserves' hrule hstackW hlength hgoto (by simp [hother])
    simp only [Environment.reduced, hmemory, hreduce, Handle.pos_map] at hstepV
    simp only [Environment.reduced, hother, Handle.pos_map] at hstepW
    rcases hcase with ⟨rfl, rfl, -⟩ | ⟨hp, target', hedge⟩
    · -- Nothing is left below the handle, so it was made from the start.
      obtain rfl : start = middle := by
        cases hbelow
        cases hbefore
        rfl
      exact .inr (.inl ⟨rule, x, m', hrule, hmade, hstepV, hstepW⟩)
    · obtain rfl : target' = target := by
        have hgoto' := (Grammar.gotoOn_eq_some hg).mpr hedge
        exact Option.some.inj (hgoto'.symm.trans (hgoto.resolve_right hp))
      rw [decide_eq_false hp] at hstepV hstepW
      refine .inr (.inr ⟨⟨⟨rule.left, x, target', (⟨handle⟩ : Handle X).pos⟩ :: below, c.lookahead,
        c.source, m'⟩, .nonterminal rule.left :: rest, hstepV, hstepW, ?_⟩)
      refine ⟨.push hbelow hedge trivial, ?_, hc.lookahead⟩
      rw [List.reverse_cons, List.reverse_cons, List.map_append]
      exact hbefore.append (.cons hmade .nil)

-- The second environment keeps step with the first as long as that succeeds.
theorem run_views (h : env.Readings f f' env' g made) (hserves : env.tables.Serves g)
    (hstart : g.StartUnused) {fuel : Nat} (hc : MadeUp g made start symbols c) {v : V}
    {source : σ} {m : ρ} (hrun : env.run fuel (c.map f) = some ⟨.ok v, source, m⟩) :
    ∃ rule x, g.rules[0]? = some rule ∧ made (.nonterminal rule.left) x start m ∧ v = f x ∧
      env'.run fuel (c.view f') = some ⟨.ok (f' x), source, ()⟩ := by
  induction fuel generalizing c symbols with
  | zero => cases hrun
  | succ fuel ih =>
      have hserves' : env'.tables.Serves g := h.tables ▸ hserves
      have hstepV := env.step_eq hserves (c.map f)
      have hstepW := env'.step_eq hserves' (c.view f')
      have htopV : topState (c.map f).stack = topState c.stack := topState_map c.stack
      have htopW : topState (c.view f').stack = topState c.stack := topState_map c.stack
      rw [htopV] at hstepV
      rw [htopW] at hstepW
      have hsymbolV : (c.map f).lookahead.symbol = c.lookahead.symbol := rfl
      have hsymbolW : (c.view f').lookahead.symbol = c.lookahead.symbol := rfl
      rw [hsymbolV] at hstepV
      rw [hsymbolW] at hstepW
      rw [Environment.run] at hrun ⊢
      cases haction : g.actionOn (topState c.stack) c.lookahead.symbol with
      | none =>
          rw [haction] at hstepV
          rw [hstepV] at hrun
          simp [Environment.stop] at hrun
      | some action =>
          rw [haction] at hstepV hstepW
          cases action with
          | shift q =>
              replace hstepV : env.step (c.map f) = env.shift (c.map f) q := hstepV
              replace hstepW : env'.step (c.view f') = env'.shift (c.view f') q := hstepW
              have hedge := (Grammar.actionOn_eq_shift hserves.valid).mp haction
              rcases h.shift_step hc hedge with ⟨e, source', m', hstop⟩ | ⟨next, hV, hW, hnext⟩
              · rw [hstepV, hstop] at hrun
                simp at hrun
              · rw [hstepV, hV] at hrun
                rw [hstepW, hW]
                exact ih hnext hrun
          | reduce p =>
              replace hstepV : env.step (c.map f) = env.reduceBy (c.map f) p := hstepV
              replace hstepW : env'.step (c.view f') = env'.reduceBy (c.view f') p := hstepW
              rcases h.reduce_step hserves hstart hc haction with ⟨e, source', m', hstop⟩ |
                ⟨rule, x, m', hrule, hmade, hV, hW⟩ | ⟨next, symbols', hV, hW, hnext⟩
              · rw [hstepV, hstop] at hrun
                simp at hrun
              · rw [hstepV, hV] at hrun
                rw [hstepW, hW]
                cases hrun
                exact ⟨rule, x, hrule, hmade, rfl, rfl⟩
              · rw [hstepV, hV] at hrun
                rw [hstepW, hW]
                exact ih hnext hrun

-- A parse that succeeds makes one view of a value of the start symbol; the other environment makes
-- the other view of it.
theorem parse_views (h : env.Readings f f' env' g made) (hserves : env.tables.Serves g)
    (hstart : g.StartUnused) {fuel : Nat} {source source' : σ} {v : V} {m : ρ}
    (hparse : env.parse fuel source start = some ⟨.ok v, source', m⟩) :
    ∃ rule x, g.rules[0]? = some rule ∧ made (.nonterminal rule.left) x start m ∧ v = f x ∧
      env'.parse fuel source () = some ⟨.ok (f' x), source', ()⟩ := by
  rw [Environment.parse] at hparse ⊢
  rcases hnext : env.next source with ⟨e | input, next⟩
  · rw [hnext] at hparse
    simp at hparse
  · obtain ⟨x, hvalue, hother, hmade⟩ := h.token hnext
    obtain ⟨symbol, value, pos⟩ := input
    subst hvalue
    rw [hnext] at hparse
    rw [hother]
    exact h.run_views hserves hstart (c := ⟨[], ⟨symbol, x, pos⟩, next, start⟩)
      ⟨.empty, .nil, hmade⟩ hparse

end Environment.Readings

end Stencil.Parser
