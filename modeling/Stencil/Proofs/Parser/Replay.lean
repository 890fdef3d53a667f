import Stencil.Proofs.Parser.Completeness

namespace Stencil.Parser

variable {V σ ρ : Type} {g : Grammar} {env : Environment V σ ρ}

-- The values that a handle has, with their places.
def Handle.parts (h : Handle V) : List (V × Position) :=
  h.frames.map fun frame => (frame.value, frame.pos)

-- Where the first part stands. No parts have no place.
def placeOf (parts : List (V × Position)) : Position := (parts.head?.map Prod.snd).getD ⟨0, 0⟩

theorem Handle.pos_eq_placeOf (h : Handle V) : h.pos = placeOf h.parts := by
  obtain ⟨frames⟩ := h
  cases frames <;> rfl

@[simp] theorem Handle.value?_eq (h : Handle V) (i : Nat) :
    h.value? i = (h.parts[i]?).map Prod.fst := by
  simp [value?, parts, Function.comp_def]

@[simp] theorem Handle.posAt_eq (h : Handle V) (i : Nat) :
    h.posAt i = ((h.parts[i]?).map Prod.snd).getD (placeOf h.parts) := by
  rw [posAt, pos_eq_placeOf]
  simp [parts, Function.comp_def]

-- What an environment makes of a derivation from left to right: tokens have their own values, and a
-- production is reduced over those of its right side, in the memory that they leave.
mutual

inductive Evaluates (g : Grammar) (env : Environment V σ ρ) :
    Symbol → List (Input V) → V × Position → ρ → ρ → Prop
  | token (t : Input V) (m : ρ) : Evaluates g env (.terminal t.symbol) [t] (t.value, t.pos) m m
  | node {p : Nat} {rule : Rule} {tokens : List (Input V)} {parts : List (V × Position)} {v : V}
      {m middle m' : ρ} (hrule : g.rules[p]? = some rule)
      (hparts : EvaluatesAll g env rule.right tokens parts m middle)
      (hreduce : ∀ handle : Handle V, handle.parts = parts →
        env.reduce p handle middle = (.ok ⟨v, false⟩, m')) :
      Evaluates g env (.nonterminal rule.left) tokens (v, placeOf parts) m m'

inductive EvaluatesAll (g : Grammar) (env : Environment V σ ρ) :
    List Symbol → List (Input V) → List (V × Position) → ρ → ρ → Prop
  | nil (m : ρ) : EvaluatesAll g env [] [] [] m m
  | cons {symbol : Symbol} {symbols : List Symbol} {tokens rest : List (Input V)}
      {part : V × Position} {parts : List (V × Position)} {m middle m' : ρ}
      (first : Evaluates g env symbol tokens part m middle)
      (others : EvaluatesAll g env symbols rest parts middle m') :
      EvaluatesAll g env (symbol :: symbols) (tokens ++ rest) (part :: parts) m m'

end

-- Both relations at once, by the way in which they hold.
theorem Evaluates.induction
    {P : Symbol → List (Input V) → V × Position → ρ → ρ → Prop}
    {Q : List Symbol → List (Input V) → List (V × Position) → ρ → ρ → Prop}
    (token : ∀ t m, P (.terminal t.symbol) [t] (t.value, t.pos) m m)
    (node : ∀ {p rule tokens parts v m middle m'}, g.rules[p]? = some rule →
      EvaluatesAll g env rule.right tokens parts m middle → Q rule.right tokens parts m middle →
      (∀ handle : Handle V, handle.parts = parts →
        env.reduce p handle middle = (.ok ⟨v, false⟩, m')) →
      P (.nonterminal rule.left) tokens (v, placeOf parts) m m')
    (nil : ∀ m, Q [] [] [] m m)
    (cons : ∀ {symbol symbols tokens rest part parts m middle m'},
      EvaluatesAll g env symbols rest parts middle m' → P symbol tokens part m middle →
      Q symbols rest parts middle m' →
      Q (symbol :: symbols) (tokens ++ rest) (part :: parts) m m') :
    (∀ {symbol tokens part m m'}, Evaluates g env symbol tokens part m m' →
      P symbol tokens part m m') ∧
    ∀ {symbols tokens parts m m'}, EvaluatesAll g env symbols tokens parts m m' →
      Q symbols tokens parts m m' := by
  constructor
  · intro symbol tokens part m m' h
    exact @Evaluates.rec V σ ρ g env (fun s ts x m m' _ => P s ts x m m')
      (fun ss ts xs m m' _ => Q ss ts xs m m') token
      (fun hrule hparts hreduce ih => node hrule hparts ih hreduce) nil
      (fun _ others ih ihs => cons others ih ihs) symbol tokens part m m' h
  · intro symbols tokens parts m m' h
    exact @EvaluatesAll.rec V σ ρ g env (fun s ts x m m' _ => P s ts x m m')
      (fun ss ts xs m m' _ => Q ss ts xs m m') token
      (fun hrule hparts hreduce ih => node hrule hparts ih hreduce) nil
      (fun _ others ih ihs => cons others ih ihs) symbols tokens parts m m' h

-- There are trees behind an evaluation.
theorem EvaluatesAll.exists_trees {symbols : List Symbol} {tokens : List (Input V)}
    {parts : List (V × Position)} {m m' : ρ} (h : EvaluatesAll g env symbols tokens parts m m') :
    ∃ trees, List.Forall₂ (Derives g) symbols trees ∧ ParseTree.leavesOf trees = tokens := by
  refine (Evaluates.induction
    (P := fun symbol tokens _ _ _ => ∃ tree, Derives g symbol tree ∧ tree.leaves = tokens)
    (Q := fun symbols tokens _ _ _ =>
      ∃ trees, List.Forall₂ (Derives g) symbols trees ∧ ParseTree.leavesOf trees = tokens)
    ?token ?node ?nil ?cons).2 h
  case token => exact fun t _ => ⟨.leaf t, .leaf t, rfl⟩
  case node =>
    rintro p rule tokens parts v m middle m' hrule - ⟨trees, htrees, hleaves⟩ -
    exact ⟨.node p trees, .node hrule htrees, hleaves⟩
  case nil => exact fun _ => ⟨[], .nil, rfl⟩
  case cons =>
    rintro symbol symbols tokens rest part parts m middle m' - ⟨tree, htree, hleaves⟩
      ⟨trees, htrees, hrest⟩
    exact ⟨tree :: trees, .cons htree htrees, by rw [ParseTree.leavesOf, hleaves, hrest]⟩

-- The lookahead and the tokens that the source has behind it, as far as they are known.
inductive Ahead (env : Environment V σ ρ) : Input V → σ → List (Input V) → Prop
  | last (t : Input V) (source : σ) : Ahead env t source [t]
  | more {t next : Input V} {source source' : σ} {rest : List (Input V)}
      (hnext : env.next source = (.ok next, source')) (hrest : Ahead env next source' rest) :
      Ahead env t source (t :: rest)

theorem Ahead.head_eq {t next : Input V} {source : σ} {rest : List (Input V)}
    (h : Ahead env t source (next :: rest)) : t = next := by
  cases h <;> rfl

-- A parse comes from one configuration to the other, whatever fuel is left there.
def Environment.Reaches (env : Environment V σ ρ) (c c' : Configuration V σ ρ) : Prop :=
  ∃ n, ∀ fuel, env.run (n + fuel) c = env.run fuel c'

namespace Environment.Reaches

theorem refl (c : Configuration V σ ρ) : env.Reaches c c := ⟨0, fun fuel => by rw [Nat.zero_add]⟩

theorem trans {c middle c' : Configuration V σ ρ} (h : env.Reaches c middle)
    (h' : env.Reaches middle c') : env.Reaches c c' := by
  obtain ⟨n, hn⟩ := h
  obtain ⟨n', hn'⟩ := h'
  exact ⟨n + n', fun fuel => by rw [Nat.add_assoc, hn, hn']⟩

theorem of_step {c c' : Configuration V σ ρ} (h : env.step c = .running c') : env.Reaches c c' := by
  refine ⟨1, fun fuel => ?_⟩
  rw [Nat.add_comm, Environment.run, h]

end Environment.Reaches

section

variable (hserves : env.tables.Serves g) (hfree : g.ConflictFree)

include hserves

theorem reaches_shift {stack : List (Frame V)} {t next : Input V} {source source' : σ} {m : ρ}
    {target : Nat} (hedge : g.Edge (topState stack) (.terminal t.symbol) target)
    (hnext : env.next source = (.ok next, source')) :
    env.Reaches ⟨stack, t, source, m⟩
      ⟨⟨t.symbol, t.value, target, t.pos⟩ :: stack, next, source', m⟩ := by
  have hstep := env.step_eq hserves ⟨stack, t, source, m⟩
  rw [(Grammar.actionOn_eq_shift hserves.valid).mpr hedge] at hstep
  refine .of_step (hstep.trans ?_)
  simp only [Environment.shift, hnext]

include hfree

-- With its parts on top of the stack, a production is reduced.
theorem step_reduces {p : Nat} {rule : Rule} (hrule : g.rules[p]? = some rule)
    {handle below : List (Frame V)} (hlength : handle.length = rule.right.length)
    (hitem : (⟨p, rule.right.length⟩ : Item) ∈ g.itemsAt (topState (handle.reverse ++ below)))
    {t : Input V} (hfollow : t.symbol ∈ g.followOf rule.left) (source : σ) (m : ρ) (target : Nat)
    (hgoto : g.Edge (topState below) (.nonterminal rule.left) target ∨
      ∀ {value memory}, env.reduce p ⟨handle⟩ m ≠ (.ok ⟨value, false⟩, memory)) :
    env.step ⟨handle.reverse ++ below, t, source, m⟩ =
      env.reduced ⟨handle.reverse ++ below, t, source, m⟩ p ⟨handle⟩ below rule.left target := by
  have hstep := env.step_eq hserves ⟨handle.reverse ++ below, t, source, m⟩
  rw [hfree.actionOn_eq_reduce hserves.valid hrule hitem hfollow] at hstep
  refine hstep.trans (Environment.reduceBy_eq hserves hrule rfl hlength ?_)
  exact hgoto.imp_left (Grammar.gotoOn_eq_some hserves.valid).mpr

end

-- From a state that expects the symbol, a parse comes over the tokens to what they evaluate to, as
-- long as the token behind may follow.
def Leads (g : Grammar) (env : Environment V σ ρ) (symbol : Symbol) (tokens : List (Input V))
    (part : V × Position) (m m' : ρ) : Prop :=
  ∀ {stack i target t behind source rest}, i ∈ g.itemsAt (topState stack) →
    g.nextSymbol? i = some symbol → g.Edge (topState stack) symbol target →
    Ahead env t source (tokens ++ behind :: rest) →
    (∀ n, symbol = .nonterminal n → behind.symbol ∈ g.followOf n) →
    ∃ frame : Frame V, ∃ source', (frame.value, frame.pos) = part ∧ frame.state = target ∧
      Ahead env behind source' (behind :: rest) ∧
      env.Reaches ⟨stack, t, source, m⟩ ⟨frame :: stack, behind, source', m'⟩

-- The same for some symbols behind the dot of an item. It carries the dot over them, as long as what
-- is behind them derives the tokens that come next.
def LeadsAll (g : Grammar) (env : Environment V σ ρ) (symbols : List Symbol)
    (tokens : List (Input V)) (parts : List (V × Position)) (m m' : ρ) : Prop :=
  ∀ {r rule before after trees stack t behind source rest}, g.rules[r]? = some rule →
    rule.right = before ++ (symbols ++ after) → List.Forall₂ (Derives g) after trees →
    (⟨r, before.length⟩ : Item) ∈ g.itemsAt (topState stack) →
    Ahead env t source (tokens ++ (ParseTree.leavesOf trees ++ behind :: rest)) →
    behind.symbol ∈ g.followOf rule.left →
    ∃ handle : List (Frame V), ∃ t' source', (⟨handle⟩ : Handle V).parts = parts ∧
      handle.length = symbols.length ∧
      (⟨r, before.length + symbols.length⟩ : Item) ∈
        g.itemsAt (topState (handle.reverse ++ stack)) ∧
      Ahead env t' source' (ParseTree.leavesOf trees ++ behind :: rest) ∧
      env.Reaches ⟨stack, t, source, m⟩ ⟨handle.reverse ++ stack, t', source', m'⟩

theorem leads_token (hserves : env.tables.Serves g) (t : Input V) (m : ρ) :
    Leads g env (.terminal t.symbol) [t] (t.value, t.pos) m m := by
  intro stack i target next behind source rest hitem hnext hedge hahead hfollow
  cases hahead with
  | more hread hahead =>
      obtain rfl := hahead.head_eq
      exact ⟨_, _, rfl, rfl, hahead, reaches_shift hserves hedge hread⟩

theorem leads_node (hserves : env.tables.Serves g) (hfree : g.ConflictFree) {p : Nat} {rule : Rule}
    {tokens : List (Input V)} {parts : List (V × Position)} {v : V} {m middle m' : ρ}
    (hrule : g.rules[p]? = some rule) (hparts : LeadsAll g env rule.right tokens parts m middle)
    (hreduce : ∀ handle : Handle V, handle.parts = parts →
      env.reduce p handle middle = (.ok ⟨v, false⟩, m')) :
    Leads g env (.nonterminal rule.left) tokens (v, placeOf parts) m m' := by
  intro stack i target t behind source rest hitem hnext hedge hahead hfollow
  have hbegin : (⟨p, ([] : List Symbol).length⟩ : Item) ∈ g.itemsAt (topState stack) :=
    Grammar.itemsAt_closed hserves.valid hitem hrule hnext
  have hbehind := hfollow rule.left rfl
  obtain ⟨handle, t', source', hvalues, hlength, hend, hrest, hreaches⟩ :=
    hparts hrule (List.append_nil _).symm .nil hbegin hahead hbehind
  obtain rfl := hrest.head_eq
  rw [List.length_nil, Nat.zero_add] at hend
  have hstep := step_reduces hserves hfree hrule hlength hend hbehind source' middle
    target (.inl hedge)
  simp only [Environment.reduced, hreduce ⟨handle⟩ hvalues, Handle.pos_eq_placeOf, hvalues] at hstep
  exact ⟨_, source', rfl, rfl, hrest, hreaches.trans (.of_step hstep)⟩

theorem leadsAll_nil (m : ρ) : LeadsAll g env [] [] [] m m := by
  intro r rule before after trees stack t behind source rest hrule hright hafter hitem hahead hfollow
  exact ⟨[], t, source, rfl, rfl, hitem, hahead, .refl _⟩

theorem exists_head (tokens : List (Input V)) (behind : Input V) (rest : List (Input V)) :
    ∃ more, tokens ++ behind :: rest = tokens.headD behind :: more := by
  cases tokens with
  | nil => exact ⟨rest, rfl⟩
  | cons next more => exact ⟨more ++ behind :: rest, rfl⟩

theorem leadsAll_cons (hg : g.Valid) {symbol : Symbol} {symbols : List Symbol}
    {tokens others : List (Input V)} {part : V × Position} {parts : List (V × Position)}
    {m middle m' : ρ} (hothers : EvaluatesAll g env symbols others parts middle m')
    (ih : Leads g env symbol tokens part m middle)
    (ihs : LeadsAll g env symbols others parts middle m') :
    LeadsAll g env (symbol :: symbols) (tokens ++ others) (part :: parts) m m' := by
  intro r rule before after trees stack t behind source rest hrule hright hafter hitem hahead hfollow
  have hnext : g.nextSymbol? ⟨r, before.length⟩ = some symbol :=
    Grammar.nextSymbol?_eq_some.mpr ⟨rule, hrule, by simp [hright]⟩
  obtain ⟨target, hedge⟩ := Grammar.exists_edge hg hitem hnext
  -- The token behind the first symbol begins the others, or follows the whole rule.
  obtain ⟨front, hfront, rfl⟩ := hothers.exists_trees
  have hbehind : ∀ n, symbol = .nonterminal n →
      ((ParseTree.leavesOf (front ++ trees)).headD behind).symbol ∈ g.followOf n := by
    rintro n rfl
    exact mem_followOf hg (Array.mem_of_getElem? hrule) hright (List.rel_append hfront hafter)
      hfollow
  obtain ⟨more, hmore⟩ := exists_head (ParseTree.leavesOf (front ++ trees)) behind rest
  have hleaves : ParseTree.leavesOf front ++ (ParseTree.leavesOf trees ++ behind :: rest) =
      ParseTree.leavesOf (front ++ trees) ++ behind :: rest := by
    simp [ParseTree.leavesOf_eq_flatMap]
  rw [List.append_assoc, hleaves, hmore] at hahead
  obtain ⟨frame, source₁, hpart, hstate, hthen, hfirst⟩ := ih hitem hnext hedge hahead hbehind
  rw [← hmore, ← hleaves] at hthen
  have hadvanced : (⟨r, (before ++ [symbol]).length⟩ : Item) ∈
      g.itemsAt (topState (frame :: stack)) := by
    rw [List.length_append]
    simp only [topState, hstate]
    exact (hedge.mem_itemsAt hg).mpr ⟨hitem, hnext⟩
  obtain ⟨handle, t', source₂, hparts, hlength, hend, hrest, hthen⟩ :=
    ihs hrule (by simpa using hright) hafter hadvanced hthen hfollow
  refine ⟨frame :: handle, t', source₂, ?_, by simp [hlength], ?_, hrest, ?_⟩
  · rw [← hpart, ← hparts]
    rfl
  · simpa [Nat.add_assoc, Nat.add_comm 1] using hend
  · simpa using hfirst.trans hthen

theorem EvaluatesAll.leads (hserves : env.tables.Serves g) (hfree : g.ConflictFree)
    {symbols : List Symbol} {tokens : List (Input V)} {parts : List (V × Position)} {m m' : ρ}
    (h : EvaluatesAll g env symbols tokens parts m m') :
    LeadsAll g env symbols tokens parts m m' :=
  (Evaluates.induction (P := Leads g env) (Q := LeadsAll g env) (leads_token hserves)
    (fun hrule _ ih hreduce => leads_node hserves hfree hrule ih hreduce) leadsAll_nil
    (fun hothers ih ihs => leadsAll_cons hserves.valid hothers ih ihs)).2 h

-- A parse of what derives from the start rule ends with what it evaluates to.
theorem EvaluatesAll.parse (hserves : env.tables.Serves g) (hfree : g.ConflictFree) {rule : Rule}
    (hrule : g.rules[0]? = some rule) {tokens rest : List (Input V)} {parts : List (V × Position)}
    {m middle m' : ρ} {v : V} (h : EvaluatesAll g env rule.right tokens parts m middle)
    (hreduce : ∀ handle : Handle V, handle.parts = parts →
      env.reduce 0 handle middle = (.ok ⟨v, true⟩, m'))
    {t behind : Input V} {start source : σ} (hnext : env.next start = (.ok t, source))
    (hahead : Ahead env t source (tokens ++ behind :: rest)) (hbehind : behind.symbol = g.eof) :
    ∃ fuel source', env.parse fuel start m = some ⟨.ok v, source', m'⟩ := by
  have hg := hserves.valid
  have hfollow : behind.symbol ∈ g.followOf rule.left := hbehind ▸ Grammar.eof_mem_followOf hg hrule
  have hbegin : (⟨0, ([] : List Symbol).length⟩ : Item) ∈
      g.itemsAt (topState ([] : List (Frame V))) := Grammar.start_mem_itemsAt hg
  obtain ⟨handle, t', source', hvalues, hlength, hend, hrest, n, hreaches⟩ :=
    h.leads hserves hfree hrule (List.append_nil _).symm .nil hbegin hahead hfollow
  obtain rfl := hrest.head_eq
  rw [List.length_nil, Nat.zero_add] at hend
  have hstep := step_reduces hserves hfree hrule hlength hend hfollow source' middle 0
    (.inr (by simp [hreduce ⟨handle⟩ hvalues]))
  simp only [Environment.reduced, hreduce ⟨handle⟩ hvalues] at hstep
  refine ⟨n + 1, source', ?_⟩
  rw [Environment.parse, hnext]
  exact (hreaches 1).trans (by rw [Environment.run, hstep])

variable {e : ParseError}

-- A derivation over which an environment fails from left to right: some production has parts that
-- are evaluated and an action that refuses them. What is behind that production only derives.
inductive Fails (g : Grammar) (env : Environment V σ ρ) (e : ParseError) :
    Symbol → List (Input V) → ρ → Prop
  | here {p : Nat} {rule : Rule} {tokens : List (Input V)} {parts : List (V × Position)}
      {m middle m' : ρ} (hrule : g.rules[p]? = some rule)
      (hparts : EvaluatesAll g env rule.right tokens parts m middle)
      (hreduce : ∀ handle : Handle V, handle.parts = parts →
        env.reduce p handle middle = (.error e, m')) :
      Fails g env e (.nonterminal rule.left) tokens m
  | inside {p : Nat} {rule : Rule} {before after : List Symbol} {symbol : Symbol}
      {first tokens : List (Input V)} {trees : List (ParseTree V)} {parts : List (V × Position)}
      {m middle : ρ} (hrule : g.rules[p]? = some rule)
      (hright : rule.right = before ++ symbol :: after)
      (hbefore : EvaluatesAll g env before first parts m middle)
      (fails : Fails g env e symbol tokens middle)
      (hafter : List.Forall₂ (Derives g) after trees) :
      Fails g env e (.nonterminal rule.left) (first ++ (tokens ++ ParseTree.leavesOf trees)) m

namespace Fails

variable {symbol : Symbol} {tokens : List (Input V)} {m : ρ}

theorem exists_tree (h : Fails g env e symbol tokens m) :
    ∃ tree, Derives g symbol tree ∧ tree.leaves = tokens := by
  induction h with
  | @here p _ _ _ _ _ _ hrule hparts _ =>
      obtain ⟨trees, htrees, hleaves⟩ := hparts.exists_trees
      exact ⟨.node p trees, .node hrule htrees, hleaves⟩
  | @inside p _ _ _ _ _ _ trees _ _ _ hrule hright hbefore _ hafter ih =>
      obtain ⟨front, hfront, rfl⟩ := hbefore.exists_trees
      obtain ⟨tree, htree, rfl⟩ := ih
      refine ⟨.node p (front ++ tree :: trees), .node hrule ?_, ?_⟩
      · rw [hright]
        exact List.rel_append hfront (.cons htree hafter)
      · simp [ParseTree.leaves, ParseTree.leavesOf_eq_flatMap]

end Fails

-- A parse ends with the error, whatever fuel is left there.
def Environment.EndsIn (env : Environment V σ ρ) (e : ParseError) (c : Configuration V σ ρ) : Prop :=
  ∃ c' r, env.Reaches c c' ∧ env.step c' = .stopped r ∧ r.value = .error e

theorem Environment.Reaches.endsIn {c middle : Configuration V σ ρ} (h : env.Reaches c middle)
    (h' : env.EndsIn e middle) : env.EndsIn e c := by
  obtain ⟨c', r, hreaches, hstop⟩ := h'
  exact ⟨c', r, h.trans hreaches, hstop⟩

namespace Fails

variable (hserves : env.tables.Serves g) (hfree : g.ConflictFree) {symbol : Symbol}
  {tokens : List (Input V)} {m : ρ}

include hserves hfree

-- From a state that expects the symbol, a parse comes to the error, as long as the token behind may
-- follow.
theorem endsIn (h : Fails g env e symbol tokens m) {stack : List (Frame V)} {i : Item}
    {t behind : Input V} {source : σ} {rest : List (Input V)}
    (hitem : i ∈ g.itemsAt (topState stack)) (hnext : g.nextSymbol? i = some symbol)
    (hahead : Ahead env t source (tokens ++ behind :: rest))
    (hfollow : ∀ n, symbol = .nonterminal n → behind.symbol ∈ g.followOf n) :
    env.EndsIn e ⟨stack, t, source, m⟩ := by
  induction h generalizing stack i t behind source rest with
  | @here p rule tokens parts m middle m' hrule hparts hreduce =>
      have hbegin : (⟨p, ([] : List Symbol).length⟩ : Item) ∈ g.itemsAt (topState stack) :=
        Grammar.itemsAt_closed hserves.valid hitem hrule hnext
      have hbehind := hfollow rule.left rfl
      obtain ⟨handle, t', source', hvalues, hlength, hend, hrest, hreaches⟩ :=
        hparts.leads hserves hfree hrule (List.append_nil _).symm .nil hbegin hahead hbehind
      obtain rfl := hrest.head_eq
      rw [List.length_nil, Nat.zero_add] at hend
      have hstep := step_reduces hserves hfree hrule hlength hend hbehind source' middle 0
        (.inr (by simp [hreduce ⟨handle⟩ hvalues]))
      simp only [Environment.reduced, hreduce ⟨handle⟩ hvalues] at hstep
      exact ⟨_, _, hreaches, hstep, rfl⟩
  | @inside p rule before after symbol first tokens trees parts m middle hrule hright hbefore hfails
      hafter ih =>
      have hbegin : (⟨p, ([] : List Symbol).length⟩ : Item) ∈ g.itemsAt (topState stack) :=
        Grammar.itemsAt_closed hserves.valid hitem hrule hnext
      have hbehind := hfollow rule.left rfl
      obtain ⟨tree, htree, rfl⟩ := hfails.exists_tree
      obtain ⟨handle, t', source', -, -, hdot, hrest, hreaches⟩ :=
        hbefore.leads hserves hfree hrule hright (.cons htree hafter) hbegin
          (by simpa [ParseTree.leavesOf] using hahead) hbehind
      rw [List.length_nil, Nat.zero_add] at hdot
      have hexpects : g.nextSymbol? ⟨p, before.length⟩ = some symbol :=
        Grammar.nextSymbol?_eq_some.mpr ⟨rule, hrule, by simp [hright]⟩
      obtain ⟨more, hmore⟩ := exists_head (ParseTree.leavesOf trees) behind rest
      rw [ParseTree.leavesOf, List.append_assoc, hmore] at hrest
      refine hreaches.endsIn (ih hdot hexpects hrest ?_)
      rintro n rfl
      exact mem_followOf hserves.valid (Array.mem_of_getElem? hrule) hright hafter hbehind

-- A parse of what derives from the start rule ends with the error of its first symbol.
theorem parse (h : Fails g env e symbol tokens m) {rule : Rule} (hrule : g.rules[0]? = some rule)
    {after : List Symbol} (hright : rule.right = symbol :: after) {trees : List (ParseTree V)}
    (hafter : List.Forall₂ (Derives g) after trees) {t behind : Input V} {start source : σ}
    {rest : List (Input V)} (hnext : env.next start = (.ok t, source))
    (hahead : Ahead env t source (tokens ++ (ParseTree.leavesOf trees ++ behind :: rest)))
    (hbehind : behind.symbol = g.eof) :
    ∃ fuel r, env.parse fuel start m = some r ∧ r.value = .error e := by
  have hg := hserves.valid
  have hfollow : behind.symbol ∈ g.followOf rule.left := hbehind ▸ Grammar.eof_mem_followOf hg hrule
  have hbegin : (⟨0, 0⟩ : Item) ∈ g.itemsAt (topState ([] : List (Frame V))) :=
    Grammar.start_mem_itemsAt hg
  have hexpects : g.nextSymbol? ⟨0, 0⟩ = some symbol :=
    Grammar.nextSymbol?_eq_some.mpr ⟨rule, hrule, by simp [hright]⟩
  obtain ⟨more, hmore⟩ := exists_head (ParseTree.leavesOf trees) behind rest
  rw [hmore] at hahead
  have hbegins : ∀ n, symbol = .nonterminal n →
      ((ParseTree.leavesOf trees).headD behind).symbol ∈ g.followOf n := by
    rintro n rfl
    have hrest : rule.right = [] ++ .nonterminal n :: after := hright
    exact mem_followOf hg (Array.mem_of_getElem? hrule) hrest hafter hfollow
  obtain ⟨c, r, ⟨n, hreaches⟩, hstop, hvalue⟩ :=
    h.endsIn hserves hfree hbegin hexpects hahead hbegins
  refine ⟨n + 1, r, ?_, hvalue⟩
  rw [Environment.parse, hnext]
  exact (hreaches 1).trans (by rw [Environment.run, hstop])

end Fails

end Stencil.Parser
