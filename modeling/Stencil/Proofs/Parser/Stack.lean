import Stencil.Proofs.Grammar.Compiled

namespace Stencil

-- The second symbol stands right behind the first on some right side.
def Grammar.Adjacent (g : Grammar) (a b : Symbol) : Prop :=
  ∃ rule ∈ g.rules, (a, b) ∈ rule.right.zip rule.right.tail

theorem Grammar.adjacent_of_nextSymbol? {g : Grammar} {r d : Nat} {a b : Symbol}
    (ha : g.nextSymbol? ⟨r, d⟩ = some a) (hb : g.nextSymbol? ⟨r, d + 1⟩ = some b) :
    g.Adjacent a b := by
  obtain ⟨rule, hrule, hdot⟩ := nextSymbol?_eq_some.mp ha
  obtain ⟨same, hsame, hdot'⟩ := nextSymbol?_eq_some.mp hb
  rw [hrule] at hsame
  cases hsame
  refine ⟨rule, Array.mem_of_getElem? hrule, List.mem_of_getElem? (i := d) ?_⟩
  rw [List.getElem?_zip_eq_some]
  exact ⟨hdot, by rw [List.getElem?_tail]; exact hdot'⟩

end Stencil

namespace Stencil.Parser

variable {V σ ρ : Type} {g : Grammar} {env : Environment V σ ρ}

namespace Environment

-- A step is decided by the action of the state on top.
theorem step_eq (env : Environment V σ ρ) (h : env.tables.Serves g) (c : Configuration V σ ρ) :
    env.step c =
      match g.actionOn (topState c.stack) c.lookahead.symbol with
      | some (.shift q) => env.shift c q
      | some (.reduce p) => env.reduceBy c p
      | none => stop c c.lookahead.pos (.unexpectedToken (env.terminalName c.lookahead.symbol)) := by
  simp only [step, h.actionAt]
  cases haction : g.actionOn (topState c.stack) c.lookahead.symbol with
  | none => rfl
  | some action =>
      have hfits := h.fits haction
      simp only [Option.map_some, Option.getD_some, gt_iff_lt, Int16.lt_iff_toInt_lt,
        Int16.toInt_zero]
      cases action with
      | shift q =>
          rw [Action.toInt_code_shift hfits, if_pos (by omega)]
          congr 1
      | reduce p =>
          rw [Action.toInt_code_reduce hfits, if_neg (by omega), if_pos (by omega)]
          congr 1

-- What a reduction comes to once the production, its handle and its goto are found.
def reduced (env : Environment V σ ρ) (c : Configuration V σ ρ) (production : Nat)
    (handle : Handle V) (below : List (Frame V)) (left target : Nat) : Step V σ ρ :=
  match env.reduce production handle c.memory with
  | (.error e, memory) => .stopped ⟨.error e, c.source, memory⟩
  | (.ok ⟨value, true⟩, memory) => .stopped ⟨.ok value, c.source, memory⟩
  | (.ok ⟨value, false⟩, memory) =>
    .running ⟨⟨left, value, target, handle.pos⟩ :: below, c.lookahead, c.source, memory⟩

-- Rule 0 ends the parse whenever it is reduced.
def AcceptsStart (env : Environment V σ ρ) : Prop :=
  ∀ {handle memory reduction memory'},
    env.reduce 0 handle memory = (.ok reduction, memory') → reduction.accepted = true

-- The goto of a reduction is looked up only if the parse goes on.
theorem reduceBy_eq (h : env.tables.Serves g) {c : Configuration V σ ρ} {p : Nat} {rule : Rule}
    (hrule : g.rules[p]? = some rule) {handle below : List (Frame V)}
    (hstack : c.stack = handle.reverse ++ below) (hlength : handle.length = rule.right.length)
    {target : Nat} (hgoto : g.gotoOn (topState below) rule.left = some target ∨
      ∀ {value memory}, env.reduce p ⟨handle⟩ c.memory ≠ (.ok ⟨value, false⟩, memory)) :
    env.reduceBy c p = env.reduced c p ⟨handle⟩ below rule.left target := by
  have htake : (c.stack.take rule.right.length).reverse = handle := by
    rw [hstack, ← hlength, ← List.length_reverse, List.take_left, List.reverse_reverse]
  have hdrop : c.stack.drop rule.right.length = below := by
    rw [hstack, ← hlength, ← List.length_reverse, List.drop_left]
  have hfits : ¬ rule.right.length > c.stack.length := by
    rw [hstack, List.length_append, List.length_reverse]
    omega
  simp only [reduceBy, h.productionAt, hrule, Option.map_some, if_neg hfits, htake, hdrop, reduced]
  rcases hreduce : env.reduce p ⟨handle⟩ c.memory with ⟨_ | ⟨value, accepted⟩, memory⟩
  · rfl
  · cases accepted with
    | true => rfl
    | false =>
        rcases hgoto with hgoto | hnever
        · have hle := h.goto_le hgoto
          have hnonneg : ¬ Int16.ofInt target < 0 := by
            rw [Int16.lt_iff_toInt_lt, Grammar.toInt_ofInt_of_le hle, Int16.toInt_zero]
            omega
          simp only [h.gotoAt, hgoto, Option.map_some, Option.getD_some, if_neg hnonneg,
            Grammar.toInt_ofInt_of_le hle, Int.toNat_natCast]
        · exact absurd hreduce hnever

end Environment

-- The states of a stack lead from one to the next over the given symbols, the top first, which
-- the values fit.
inductive Path (g : Grammar) (Fits : Symbol → V → Prop) : List Symbol → List (Frame V) → Prop
  | empty : Path g Fits [] []
  | push {symbols : List Symbol} {stack : List (Frame V)} {frame : Frame V} {symbol : Symbol}
      (below : Path g Fits symbols stack) (edge : g.Edge (topState stack) symbol frame.state)
      (fits : Fits symbol frame.value) : Path g Fits (symbol :: symbols) (frame :: stack)

namespace Path

variable {Fits : Symbol → V → Prop} {symbols : List Symbol} {stack : List (Frame V)}

theorem eq_nil_of_topState (hg : g.Valid) (h : Path g Fits symbols stack)
    (hzero : topState stack = 0) : symbols = [] ∧ stack = [] := by
  cases h with
  | empty => exact ⟨rfl, rfl⟩
  | push below edge fits => exact absurd hzero (edge.target_ne_zero hg)

-- An item of the top state is backed by the symbols before its dot, and its rule begins in the
-- state below them.
theorem pop (hg : g.Valid) (h : Path g Fits symbols stack) {r d : Nat} {rule : Rule}
    (hrule : g.rules[r]? = some rule) (hitem : (⟨r, d⟩ : Item) ∈ g.itemsAt (topState stack)) :
    ∃ (rest : List Symbol) (handle below : List (Frame V)),
      symbols = (rule.right.take d).reverse ++ rest ∧ stack = handle.reverse ++ below ∧
      List.Forall₂ Fits (rule.right.take d) (handle.map Frame.value) ∧
      Path g Fits rest below ∧ (⟨r, 0⟩ : Item) ∈ g.itemsAt (topState below) := by
  induction d generalizing symbols stack with
  | zero => exact ⟨symbols, [], stack, rfl, rfl, by simp, h, hitem⟩
  | succ d ih =>
      cases h with
      | empty => exact absurd (g.dot_eq_zero_of_mem_start hg hitem) (by simp)
      | @push symbols stack frame symbol hbelow hedge hfits =>
          obtain ⟨hprevious, hnext⟩ := (hedge.mem_itemsAt hg).mp hitem
          obtain ⟨rest, handle, below, rfl, rfl, hhandle, hpath, hstart⟩ := ih hbelow hprevious
          obtain ⟨same, hsame, hsymbol⟩ := Grammar.nextSymbol?_eq_some.mp hnext
          rw [hrule] at hsame
          cases hsame
          have htake : rule.right.take (d + 1) = rule.right.take d ++ [symbol] := by
            simp only at hsymbol
            rw [List.take_add_one, hsymbol]
            rfl
          refine ⟨rest, handle ++ [frame], below, by simp [htake], by simp, ?_, hpath, hstart⟩
          rw [htake, List.map_append]
          exact List.rel_append hhandle (by simpa using hfits)

-- Behind the top symbol a rule begins if its left side can come first there.
theorem begins (hg : g.Valid) {symbol : Symbol} (h : Path g Fits (symbol :: symbols) stack) {r : Nat}
    {rule : Rule} (hrule : g.rules[r]? = some rule)
    (hitem : (⟨r, 0⟩ : Item) ∈ g.itemsAt (topState stack)) :
    ∃ m, g.Adjacent symbol (.nonterminal m) ∧ g.LeftReaches m rule.left := by
  cases h with
  | push below edge fits =>
      obtain ⟨r', d, m, hkernel, hm, hreach⟩ :=
        Grammar.itemsAt_reached hg hrule (edge.target_ne_zero hg) hitem
      have hbefore := ((edge.mem_itemsAt hg).mp hkernel).2
      exact ⟨m, Grammar.adjacent_of_nextSymbol? hbefore hm, hreach⟩

-- A state can be left only if something stands behind the symbol it was entered over.
theorem exists_adjacent (hg : g.Valid) {symbol next : Symbol} {q : Nat}
    (h : Path g Fits (symbol :: symbols) stack) (hedge : g.Edge (topState stack) next q) :
    ∃ b, g.Adjacent symbol b := by
  obtain ⟨⟨r, d⟩, hi, hnext⟩ := Grammar.exists_item_of_edge hg hedge
  cases d with
  | zero =>
      obtain ⟨rule, hrule, -⟩ := Grammar.nextSymbol?_eq_some.mp hnext
      obtain ⟨m, hadjacent, -⟩ := h.begins hg hrule hi
      exact ⟨_, hadjacent⟩
  | succ d =>
      cases h with
      | push below edge fits =>
          have hbefore := ((edge.mem_itemsAt hg).mp hi).2
          exact ⟨next, Grammar.adjacent_of_nextSymbol? hbefore hnext⟩

-- The reductions that tables make fit the stack, and what they push has a state to go to. The
-- start rule is reduced over a whole input only.
theorem of_reduce (hg : g.Valid) (hstart : g.StartUnused) (h : Path g Fits symbols stack)
    {t p : Nat} (haction : g.actionOn (topState stack) t = some (.reduce p)) :
    ∃ rule, g.rules[p]? = some rule ∧ ∃ (rest : List Symbol) (handle below : List (Frame V)),
      symbols = rule.right.reverse ++ rest ∧ stack = handle.reverse ++ below ∧
      List.Forall₂ Fits rule.right (handle.map Frame.value) ∧ Path g Fits rest below ∧
      (⟨p, 0⟩ : Item) ∈ g.itemsAt (topState below) ∧
      (p = 0 ∧ below = [] ∧ t = g.eof ∨
        p ≠ 0 ∧ ∃ target, g.Edge (topState below) (.nonterminal rule.left) target) := by
  obtain ⟨rule, hrule, hitem, hfollow⟩ := Grammar.completed_of_reduce hg haction
  obtain ⟨rest, handle, below, hsymbols, hstack, hhandle, hbelow, hbegin⟩ := h.pop hg hrule hitem
  rw [List.take_length] at hsymbols hhandle
  refine ⟨rule, hrule, rest, handle, below, hsymbols, hstack, hhandle, hbelow, hbegin, ?_⟩
  by_cases hp : p = 0
  · subst hp
    have hzero := Grammar.eq_zero_of_start_mem hg hstart hbegin
    exact .inl ⟨rfl, (hbelow.eq_nil_of_topState hg hzero).2,
      Grammar.eq_eof_of_mem_followOf hg hstart hrule hfollow⟩
  · rcases Grammar.itemsAt_backed hg hrule hbegin with ⟨-, hzero⟩ | ⟨i, hi, hnext⟩
    · exact absurd hzero hp
    · exact .inr ⟨hp, Grammar.exists_edge hg hi hnext⟩

end Path

-- All that a step can do on a stack that is a path.
inductive Move (g : Grammar) (Fits : Symbol → V → Prop) (env : Environment V σ ρ)
    (symbols : List Symbol) (c : Configuration V σ ρ) : Prop
  | shift (q : Nat) (edge : g.Edge (topState c.stack) (.terminal c.lookahead.symbol) q)
      (step : env.step c = env.shift c q)
  | reduce (p : Nat) (rule : Rule) (hrule : g.rules[p]? = some rule) (rest : List Symbol)
      (handle below : List (Frame V)) (hsymbols : symbols = rule.right.reverse ++ rest)
      (hstack : c.stack = handle.reverse ++ below)
      (hhandle : List.Forall₂ Fits rule.right (handle.map Frame.value))
      (hbelow : Path g Fits rest below) (hbegin : (⟨p, 0⟩ : Item) ∈ g.itemsAt (topState below))
      (hp : p ≠ 0) (target : Nat) (edge : g.Edge (topState below) (.nonterminal rule.left) target)
      (step : env.step c = env.reduced c p ⟨handle⟩ below rule.left target)
  | accept (rule : Rule) (hrule : g.rules[0]? = some rule) (handle : List (Frame V))
      (hsymbols : symbols = rule.right.reverse) (hstack : c.stack = handle.reverse)
      (hhandle : List.Forall₂ Fits rule.right (handle.map Frame.value))
      (heof : c.lookahead.symbol = g.eof)
      (step : env.step c = env.reduced c 0 ⟨handle⟩ [] rule.left 0)
  | fail (hnone : g.actionOn (topState c.stack) c.lookahead.symbol = none)
      (step : env.step c = Environment.stop c c.lookahead.pos
        (.unexpectedToken (env.terminalName c.lookahead.symbol)))

namespace Path

variable {Fits : Symbol → V → Prop} {symbols : List Symbol}

theorem move (hserves : env.tables.Serves g) (hstart : g.StartUnused)
    (haccepts : env.AcceptsStart) {c : Configuration V σ ρ} (h : Path g Fits symbols c.stack) :
    Move g Fits env symbols c := by
  have hg := hserves.valid
  have hstep := env.step_eq hserves c
  cases haction : g.actionOn (topState c.stack) c.lookahead.symbol with
  | none =>
      rw [haction] at hstep
      exact .fail haction hstep
  | some action =>
      rw [haction] at hstep
      cases action with
      | shift q => exact .shift q ((Grammar.actionOn_eq_shift hg).mp haction) hstep
      | reduce p =>
          obtain ⟨rule, hrule, rest, handle, below, hsymbols, hstack, hhandle, hbelow, hbegin,
            hcase⟩ := h.of_reduce hg hstart haction
          have hlength : handle.length = rule.right.length := by
            rw [hhandle.length_eq, List.length_map]
          rcases hcase with ⟨rfl, rfl, heof⟩ | ⟨hp, target, hedge⟩
          · have hnever : ∀ {value memory},
                env.reduce 0 ⟨handle⟩ c.memory ≠ (.ok ⟨value, false⟩, memory) :=
              fun hreduce => absurd (haccepts hreduce) (by simp)
            cases hbelow
            exact .accept rule hrule handle (by simpa using hsymbols) (by simpa using hstack) hhandle
              heof (hstep.trans (Environment.reduceBy_eq hserves hrule hstack hlength (.inr hnever)))
          · have hgoto := (Grammar.gotoOn_eq_some hg).mpr hedge
            exact .reduce p rule hrule rest handle below hsymbols hstack hhandle hbelow hbegin hp
              target hedge
              (hstep.trans (Environment.reduceBy_eq hserves hrule hstack hlength (.inl hgoto)))

end Path

-- What every step keeps holds of all that a run passes, and what its last step leaves is its
-- result.
theorem Environment.run_induction (Inv : Configuration V σ ρ → Prop) {Post : Result V σ ρ → Prop}
    (hrunning : ∀ {c c'}, Inv c → env.step c = .running c' → Inv c')
    (hstopped : ∀ {c r}, Inv c → env.step c = .stopped r → Post r) {fuel : Nat}
    {c : Configuration V σ ρ} (hc : Inv c) {r : Result V σ ρ} (h : env.run fuel c = some r) :
    Post r := by
  induction fuel generalizing c with
  | zero => cases h
  | succ fuel ih =>
      rw [run] at h
      split at h
      · rename_i c' hstep
        exact ih (hrunning hc hstep) h
      · rename_i r' hstep
        cases h
        exact hstopped hc hstep

-- A run that has come to its end has it with more steps too.
theorem Environment.run_mono {fuel more : Nat} (hle : fuel ≤ more) {c : Configuration V σ ρ}
    {r : Result V σ ρ} (h : env.run fuel c = some r) : env.run more c = some r := by
  induction fuel generalizing more c with
  | zero => cases h
  | succ fuel ih =>
      obtain ⟨more, rfl⟩ := Nat.exists_eq_add_of_le' (Nat.le_trans (Nat.succ_pos fuel) hle)
      rw [run] at h ⊢
      split at h
      · exact ih (Nat.le_of_succ_le_succ hle) h
      · exact h

theorem Environment.parse_mono {fuel more : Nat} (hle : fuel ≤ more) {source : σ} {memory : ρ}
    {r : Result V σ ρ} (h : env.parse fuel source memory = some r) :
    env.parse more source memory = some r := by
  rw [parse] at h ⊢
  split at h
  · exact run_mono hle h
  · exact h

end Stencil.Parser
