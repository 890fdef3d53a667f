import Stencil.Proofs.Grammar.Sentence
import Stencil.Proofs.Parser.Completeness

namespace Stencil.Parser

variable {V ρ α : Type} {g : Grammar} {tables : Tables} {names : List String}

namespace Path

variable {Fits : Symbol → V → Prop} {symbols : List Symbol} {stack : List (Frame V)}

-- What stands behind the dot of an item of the top state can come behind the symbols of the stack.
theorem extends_rest (hg : g.Valid) (h : Path g Fits symbols stack) {r d : Nat} {rule : Rule}
    (hrule : g.rules[r]? = some rule) (hitem : (⟨r, d⟩ : Item) ∈ g.itemsAt (topState stack)) :
    g.Extends symbols.reverse (rule.right.drop d) := by
  induction h generalizing r d rule with
  | empty =>
      change (⟨r, d⟩ : Item) ∈ g.itemsAt 0 at hitem
      obtain rfl : d = 0 := g.dot_eq_zero_of_mem_start hg hitem
      rw [Grammar.itemsAt_eq (Grammar.automaton_explored hg).start] at hitem
      rcases (Grammar.mem_itemsOf hg).mp hitem with hkernel | ⟨-, same, hsame, i, hi, m, hm, hreach⟩
      · obtain rfl : r = 0 := by simpa using hkernel
        exact .start hrule
      · rw [hrule] at hsame
        cases hsame
        obtain rfl := List.mem_singleton.mp hi
        obtain ⟨start, hstart, hhead⟩ := Grammar.nextSymbol?_eq_some.mp hm
        obtain ⟨more, hright⟩ : ∃ more, start.right = .nonterminal m :: more := by
          cases hright : start.right with
          | nil => simp [hright] at hhead
          | cons symbol more => exact ⟨more, by simpa [hright] using hhead⟩
        have hextends : g.Extends [] start.right := .start hstart
        rw [hright] at hextends
        refine hextends.begin hg hrule hreach ?_
        intro symbol hsymbol
        exact hg.knows start (Array.mem_of_getElem? hstart) symbol (by simp [hright, hsymbol])
  | @push symbols stack frame symbol below edge fits ih =>
      -- The items of the kernel come from the state below, the others from them.
      have hkernel : ∀ {r d rule}, g.rules[r]? = some rule →
          (⟨r, d + 1⟩ : Item) ∈ g.itemsAt frame.state →
          g.Extends (symbol :: symbols).reverse (rule.right.drop (d + 1)) := by
        intro r d rule hrule hmem
        obtain ⟨hbefore, hnext⟩ := (edge.mem_itemsAt hg).mp hmem
        obtain ⟨same, hsame, hdot⟩ := Grammar.nextSymbol?_eq_some.mp hnext
        rw [hrule] at hsame
        cases hsame
        have hbelow := ih hrule hbefore
        obtain ⟨hlt, hget⟩ := List.getElem?_eq_some_iff.mp hdot
        rw [List.drop_eq_getElem_cons hlt, hget] at hbelow
        rw [List.reverse_cons]
        exact hbelow.shift
      cases d with
      | succ d => exact hkernel hrule hitem
      | zero =>
          obtain ⟨r', d, m, hmem, hm, hreach⟩ :=
            Grammar.itemsAt_reached hg hrule (edge.target_ne_zero hg) hitem
          obtain ⟨outer, houter, hdot⟩ := Grammar.nextSymbol?_eq_some.mp hm
          obtain ⟨hlt, hget⟩ := List.getElem?_eq_some_iff.mp hdot
          have hextends := hkernel houter hmem
          rw [List.drop_eq_getElem_cons hlt, hget] at hextends
          refine hextends.begin hg hrule hreach ?_
          intro symbol hsymbol
          exact hg.knows outer (Array.mem_of_getElem? houter) symbol (List.mem_of_mem_drop hsymbol)

theorem exists_item (hg : g.Valid) (h : Path g Fits symbols stack) :
    ∃ i, i ∈ g.itemsAt (topState stack) := by
  cases h with
  | empty => exact ⟨_, Grammar.start_mem_itemsAt hg⟩
  | push below edge fits =>
      obtain ⟨⟨r, d⟩, hi, hnext⟩ := Grammar.exists_item_of_edge hg edge
      exact ⟨⟨r, d + 1⟩, (edge.mem_itemsAt hg).mpr ⟨hi, hnext⟩⟩

-- Every stack that is a path can still become a sentence.
theorem exists_sentence (hg : g.Valid) (hproductive : g.Productive) (h : Path g Fits symbols stack)
    {word : List Nat} (hword : g.Yields symbols.reverse word) :
    ∃ behind, g.Sentence (word ++ behind) := by
  obtain ⟨⟨r, d⟩, hitem⟩ := h.exists_item hg
  obtain ⟨rule, hrule, -⟩ := Grammar.isItem_of_mem hg hitem
  refine (h.extends_rest hg hrule hitem).exists_sentence hproductive ?_ hword
  intro symbol hsymbol
  exact hg.knows rule (Array.mem_of_getElem? hrule) symbol (List.mem_of_mem_drop hsymbol)

end Path

-- No reduction fails, and rule 0 alone ends the parse.
def AcceptsOnlyStart (reduce : Nat → Handle V → ρ → Except ParseError (Reduction V) × ρ) : Prop :=
  ∀ production handle memory, ∃ value memory',
    reduce production handle memory = (.ok ⟨value, production == 0⟩, memory')

theorem AcceptsOnlyStart.acceptsStart
    {reduce : Nat → Handle V → ρ → Except ParseError (Reduction V) × ρ}
    (h : AcceptsOnlyStart reduce) (stream : Nat → Input V) :
    (streaming tables names stream reduce).AcceptsStart := by
  intro handle memory reduction memory' hreduce
  obtain ⟨value, after, hafter⟩ := h 0 handle memory
  change reduce 0 handle memory = _ at hreduce
  rw [hafter] at hreduce
  cases hreduce
  rfl

-- The terminals of the first tokens.
def firstSymbols (stream : Nat → Input V) (count : Nat) : List Nat :=
  (List.range count).map fun i => (stream i).symbol

-- A parse that builds trees gets to the same states with as many tokens shifted.
def Mirrored (tables : Tables) (names : List String) (stream : Nat → Input α)
    (stack : List (Frame V)) (shifted : Nat) : Prop :=
  ∃ steps trees, trees.map Frame.state = stack.map Frame.state ∧
    ∀ fuel, (treeEnvironment tables names stream).parse (steps + fuel) 0 () =
      (treeEnvironment tables names stream).run fuel (standing stream trees shifted)

theorem topState_eq {stack : List (Frame V)} {trees : List (Frame (ParseTree α))}
    (h : trees.map Frame.state = stack.map Frame.state) : topState trees = topState stack := by
  cases trees <;> cases stack <;> simp_all [topState]

namespace Mirrored

variable {stream : Nat → Input α} {stack : List (Frame V)} {shifted : Nat}

theorem start (tables : Tables) (names : List String) (stream : Nat → Input α) :
    Mirrored tables names stream ([] : List (Frame V)) 0 := by
  refine ⟨0, [], rfl, fun fuel => ?_⟩
  rw [Nat.zero_add]
  rfl

theorem shift (hserves : tables.Serves g) (h : Mirrored tables names stream stack shifted)
    {frame : Frame V}
    (edge : g.Edge (topState stack) (.terminal (stream shifted).symbol) frame.state) :
    Mirrored tables names stream (frame :: stack) (shifted + 1) := by
  obtain ⟨steps, trees, hstates, hparse⟩ := h
  rw [← topState_eq hstates] at edge
  obtain ⟨tree, -, hstate, hrun⟩ := @run_token _ _ tables names stream hserves _ _ _ edge
  refine ⟨steps + 1, tree :: trees, by simp [hstates, hstate], fun fuel => ?_⟩
  rw [Nat.add_assoc, hparse, hrun]

theorem reduce (hserves : tables.Serves g) {handle below : List (Frame V)}
    (h : Mirrored tables names stream (handle.reverse ++ below) shifted) {p : Nat} {rule : Rule}
    (hrule : g.rules[p]? = some rule) (hlength : handle.length = rule.right.length) (hp : p ≠ 0)
    (haction : g.actionOn (topState (handle.reverse ++ below)) (stream shifted).symbol =
      some (.reduce p)) {frame : Frame V}
    (edge : g.Edge (topState below) (.nonterminal rule.left) frame.state) :
    Mirrored tables names stream (frame :: below) shifted := by
  obtain ⟨steps, trees, hstates, hparse⟩ := h
  have htop := topState_eq hstates
  rw [List.map_append] at hstates
  obtain ⟨front, back, rfl, hfront, hback⟩ := List.map_eq_append_iff.mp hstates
  rw [← topState_eq hback] at edge
  have hcount : front.length = rule.right.length := by
    have hsame := congrArg List.length hfront
    simpa [hlength] using hsame
  have hgoto := (Grammar.gotoOn_eq_some hserves.valid).mpr edge
  let tree : Frame (ParseTree α) := ⟨rule.left, .node p (front.reverse.map Frame.value),
    frame.state, Handle.pos ⟨front.reverse⟩⟩
  have hstep : (treeEnvironment tables names stream).step
        (standing stream (front ++ back) shifted) =
      .running (standing stream (tree :: back) shifted) := by
    rw [Environment.step_eq _ hserves]
    simp only [standing, htop, haction]
    have hstack : front ++ back = front.reverse.reverse ++ back := by rw [List.reverse_reverse]
    have hhandle : front.reverse.length = rule.right.length := by rw [List.length_reverse, hcount]
    rw [Environment.reduceBy_eq hserves hrule hstack hhandle (.inl hgoto)]
    simp only [Environment.reduced, treeEnvironment, beq_false_of_ne hp]
    rfl
  refine ⟨steps + 1, tree :: back, by simp [tree, hback], ?_⟩
  intro fuel
  rw [Nat.add_assoc, hparse, Nat.add_comm 1, Environment.run, hstep]

-- Where there is no action the parse that builds trees fails too.
theorem fail (hserves : tables.Serves g) (h : Mirrored tables names stream stack shifted)
    (hnone : g.actionOn (topState stack) (stream shifted).symbol = none) :
    ∃ steps r, (treeEnvironment tables names stream).parse steps 0 () = some r ∧
      r.value.isOk = false := by
  obtain ⟨steps, trees, hstates, hparse⟩ := h
  rw [← topState_eq hstates] at hnone
  have hstep := (treeEnvironment tables names stream).step_eq hserves
    (standing stream trees shifted)
  have hfuel := hparse 1
  rw [Environment.run, hstep] at hfuel
  simp only [standing, hnone, Environment.stop] at hfuel
  exact ⟨steps + 1, _, hfuel, rfl⟩

end Mirrored

-- What a derived string of terminals leaves behind as trees.
theorem exists_trees {symbols : List Symbol} {word : List Nat} (h : g.Yields symbols word) :
    ∃ trees : List (ParseTree Unit), List.Forall₂ (Derives g) symbols trees ∧
      (ParseTree.leavesOf trees).map Input.symbol = word := by
  induction h with
  | nil => exact ⟨[], .nil, rfl⟩
  | @terminal t rest word _ ih =>
      obtain ⟨trees, htrees, rfl⟩ := ih
      let token : Input Unit := ⟨t, (), ⟨0, 0⟩⟩
      have htoken : Derives g (.terminal t) (.leaf token) := .leaf token
      exact ⟨.leaf token :: trees, .cons htoken htrees, rfl⟩
  | @nonterminal p rule rest word more hrule _ _ ihright ihrest =>
      obtain ⟨children, hchildren, rfl⟩ := ihright
      obtain ⟨trees, htrees, rfl⟩ := ihrest
      refine ⟨.node p children :: trees, .cons (.node hrule hchildren) htrees, ?_⟩
      simp [ParseTree.leavesOf, ParseTree.leaves]

theorem exists_startTree {word : List Nat} (h : g.Sentence word) :
    ∃ tree : ParseTree Unit, StartTree g tree ∧ tree.leaves.map Input.symbol = word := by
  obtain ⟨rule, hrule, hright⟩ := h
  obtain ⟨children, hchildren, hleaves⟩ := exists_trees hright
  exact ⟨.node 0 children, ⟨rule, children, hrule, rfl, hchildren⟩, hleaves⟩

-- The stack is a path over symbols that derive the shifted tokens, and every parse of other tokens
-- with the same terminals so far stands where this one does.
structure UpTo (g : Grammar) (tables : Tables) (names : List String) (stream : Nat → Input V)
    (shifted : Nat) (c : Configuration V Nat ρ) : Prop where
  path : ∃ symbols, Path g (fun _ _ => True) symbols c.stack ∧
    g.Yields symbols.reverse (firstSymbols stream shifted)
  lookahead : c.lookahead = stream shifted
  source : c.source = shifted + 1
  mirrored : ∀ other : Nat → Input Unit, (∀ i ≤ shifted, (other i).symbol = (stream i).symbol) →
    Mirrored tables names other c.stack shifted

-- What such trees leave with the end of input behind them.
theorem endless_symbol {tokens : List (Input α)} (last : Input α) {count i t : Nat}
    (h : (tokens.map Input.symbol ++ List.replicate count last.symbol)[i]? = some t) :
    (endless tokens last i).symbol = t := by
  unfold endless
  rcases Nat.lt_or_ge i tokens.length with hlt | hge
  · rw [List.getElem?_append_left (by simpa using hlt)] at h
    simpa [hlt] using h
  · rw [List.getElem?_append_right (by simpa using hge)] at h
    have hlast := List.eq_of_mem_replicate (List.mem_of_getElem? h)
    simp [hge, hlast]

-- The tokens before place `k` begin a sentence, and with that token they begin none, not even with
-- the end of input behind it.
structure Offends (g : Grammar) (stream : Nat → Input V) (k : Nat) : Prop where
  continues : ∃ behind, g.Sentence (firstSymbols stream k ++ behind)
  stuck : ∀ word count, g.Sentence word →
    ¬ firstSymbols stream (k + 1) <+: word ++ List.replicate count g.eof

-- A token reported as unexpected is the last one read, and the first that offends.
def Blames (g : Grammar) (stream : Nat → Input V) (r : Result V Nat ρ) : Prop :=
  ∀ pos found, r.value = .error ⟨pos, .unexpectedToken found⟩ →
    ∃ k, r.source = k + 1 ∧ pos = (stream k).pos ∧ Offends g stream k

namespace UpTo

variable {stream : Nat → Input V} {shifted : Nat} {c : Configuration V Nat ρ}

theorem start (g : Grammar) (tables : Tables) (names : List String) (stream : Nat → Input V)
    (memory : ρ) : UpTo g tables names stream 0 ⟨[], stream 0, 1, memory⟩ where
  path := ⟨[], .empty, .nil⟩
  lookahead := rfl
  source := rfl
  mirrored := fun other _ => .start tables names other

theorem shift (h : UpTo g tables names stream shifted c) (hserves : tables.Serves g) {q : Nat}
    (edge : g.Edge (topState c.stack) (.terminal (stream shifted).symbol) q) (memory : ρ) :
    UpTo g tables names stream (shifted + 1)
      ⟨⟨(stream shifted).symbol, (stream shifted).value, q, (stream shifted).pos⟩ :: c.stack,
        stream (shifted + 1), shifted + 2, memory⟩ where
  path := by
    obtain ⟨symbols, hpath, hyields⟩ := h.path
    refine ⟨_, .push hpath edge trivial, ?_⟩
    rw [firstSymbols, List.range_succ, List.map_append, List.reverse_cons]
    exact hyields.append (.terminal .nil)
  lookahead := rfl
  source := rfl
  mirrored := by
    intro other hsame
    apply (h.mirrored other fun i hi => hsame i (Nat.le_succ_of_le hi)).shift hserves
    rw [hsame shifted (Nat.le_succ shifted)]
    exact edge

theorem reduce (h : UpTo g tables names stream shifted c) (hserves : tables.Serves g)
    {p : Nat} {rule : Rule} (hrule : g.rules[p]? = some rule) (hp : p ≠ 0)
    (haction : g.actionOn (topState c.stack) (stream shifted).symbol = some (.reduce p))
    {symbols rest : List Symbol} {handle below : List (Frame V)}
    (hsymbols : symbols = rule.right.reverse ++ rest) (hstack : c.stack = handle.reverse ++ below)
    (hlength : handle.length = rule.right.length)
    (hyields : g.Yields symbols.reverse (firstSymbols stream shifted))
    (hbelow : Path g (fun _ _ => True) rest below) {frame : Frame V}
    (edge : g.Edge (topState below) (.nonterminal rule.left) frame.state) (memory : ρ) :
    UpTo g tables names stream shifted ⟨frame :: below, c.lookahead, c.source, memory⟩ where
  path := by
    refine ⟨.nonterminal rule.left :: rest, .push hbelow edge trivial, ?_⟩
    rw [hsymbols, List.reverse_append, List.reverse_reverse] at hyields
    rw [List.reverse_cons]
    rw [← List.append_nil (rest.reverse ++ _)] at hyields
    exact hyields.fold hrule
  lookahead := h.lookahead
  source := h.source
  mirrored := by
    intro other hsame
    have hmirrored := h.mirrored other hsame
    rw [hstack] at hmirrored haction
    apply hmirrored.reduce hserves hrule hlength hp ?_ edge
    rw [hsame shifted (Nat.le_refl shifted)]
    exact haction

variable {reduce : Nat → Handle V → ρ → Except ParseError (Reduction V) × ρ}

-- A step either shifts or reduces and keeps the invariant, or it accepts, or it has no action.
theorem step (h : UpTo g tables names stream shifted c) (hserves : tables.Serves g)
    (hstart : g.StartUnused) (hreduce : AcceptsOnlyStart reduce) :
    (∃ shifted' c', (streaming tables names stream reduce).step c = .running c' ∧
      UpTo g tables names stream shifted' c') ∨
    (∃ r, (streaming tables names stream reduce).step c = .stopped r ∧ r.value.isOk = true) ∨
    (g.actionOn (topState c.stack) (stream shifted).symbol = none ∧
      (streaming tables names stream reduce).step c = Environment.stop c (stream shifted).pos
        (.unexpectedToken ((streaming tables names stream reduce).terminalName
          (stream shifted).symbol))) := by
  have hg := hserves.valid
  have hactions := (streaming tables names stream reduce).step_eq hserves c
  rw [h.lookahead] at hactions
  cases haction : g.actionOn (topState c.stack) (stream shifted).symbol with
  | none =>
      rw [haction] at hactions
      exact .inr (.inr ⟨rfl, hactions⟩)
  | some action =>
      rw [haction] at hactions
      cases action with
      | shift q =>
          have hstep : (streaming tables names stream reduce).step c =
            (streaming tables names stream reduce).shift c q := hactions
          left
          refine ⟨shifted + 1, _, ?_, h.shift hserves ((Grammar.actionOn_eq_shift hg).mp haction)
            c.memory⟩
          rw [hstep, Environment.shift, h.lookahead, h.source]
          rfl
      | reduce p =>
          have hstep : (streaming tables names stream reduce).step c =
            (streaming tables names stream reduce).reduceBy c p := hactions
          obtain ⟨symbols, hpath, hyields⟩ := h.path
          obtain ⟨rule, hrule, rest, handle, below, hsymbols, hstack, hhandle, hbelow, -, hcase⟩ :=
            hpath.of_reduce hg hstart haction
          have hlength : handle.length = rule.right.length := by
            rw [hhandle.length_eq, List.length_map]
          obtain ⟨value, memory, hvalue⟩ := hreduce p ⟨handle⟩ c.memory
          rcases hcase with ⟨rfl, rfl, -⟩ | ⟨hp, target, hedge⟩
          · right
            left
            have hnever : ∀ {value memory}, (streaming tables names stream reduce).reduce 0
                ⟨handle⟩ c.memory ≠ (.ok ⟨value, false⟩, memory) := by
              intro other memory' hother
              have haccepts : (streaming tables names stream reduce).AcceptsStart :=
                hreduce.acceptsStart stream
              exact absurd (haccepts hother) (by simp)
            have hreduced : (streaming tables names stream reduce).reduceBy c 0 =
                (streaming tables names stream reduce).reduced c 0 ⟨handle⟩ [] rule.left 0 :=
              Environment.reduceBy_eq hserves hrule hstack hlength (.inr hnever)
            rw [hreduced, Environment.reduced] at hstep
            simp only [show (streaming tables names stream reduce).reduce = reduce from rfl, hvalue]
              at hstep
            exact ⟨_, hstep, rfl⟩
          · left
            have hgoto := (Grammar.gotoOn_eq_some hg).mpr hedge
            rw [Environment.reduceBy_eq hserves hrule hstack hlength (.inl hgoto),
              Environment.reduced] at hstep
            simp only [show (streaming tables names stream reduce).reduce = reduce from rfl, hvalue,
              beq_false_of_ne hp] at hstep
            exact ⟨shifted, _, hstep, h.reduce hserves hrule hp haction hsymbols hstack hlength
              hyields hbelow hedge memory⟩

-- A sentence that went on like the tokens read would be parsed, and so there would be an action.
theorem offends (h : UpTo g tables names stream shifted c) (hserves : tables.Serves g)
    (hfree : g.ConflictFree) (hstart : g.StartUnused) (hproductive : g.Productive)
    (hnone : g.actionOn (topState c.stack) (stream shifted).symbol = none) :
    Offends g stream shifted where
  continues := by
    obtain ⟨symbols, hpath, hyields⟩ := h.path
    exact hpath.exists_sentence hserves.valid hproductive hyields
  stuck := by
    intro word count hword hprefix
    obtain ⟨tree, htree, rfl⟩ := exists_startTree hword
    let last : Input Unit := ⟨g.eof, (), ⟨0, 0⟩⟩
    have hsame : ∀ i ≤ shifted, (endless tree.leaves last i).symbol = (stream i).symbol := by
      intro i hi
      have hread : (firstSymbols stream (shifted + 1))[i]? = some (stream i).symbol := by
        simp [firstSymbols, Nat.lt_succ_of_le hi]
      obtain ⟨rest, hrest⟩ := hprefix
      have hlisted : (tree.leaves.map Input.symbol ++ List.replicate count last.symbol)[i]? =
          some (stream i).symbol := by
        change (tree.leaves.map Input.symbol ++ List.replicate count g.eof)[i]? = _
        rw [← hrest, List.getElem?_append_left (List.getElem?_eq_some_iff.mp hread).1]
        exact hread
      exact endless_symbol last hlisted
    obtain ⟨steps, r, hr, hfailed⟩ := (h.mirrored _ hsame).fail hserves (by
      rw [hsame shifted (Nat.le_refl shifted)]
      exact hnone)
    have hends : (endless tree.leaves last tree.leaves.length).symbol = g.eof := by
      rw [endless_length]
    have hparsed := @parse_startTree _ _ tables names _ hserves hfree hstart _ htree
      (endless_reads _ last) hends _ (Nat.le_max_right steps tree.size)
    have hlonger := Environment.parse_mono (Nat.le_max_left steps tree.size) hr
    rw [hparsed] at hlonger
    cases hlonger
    cases hfailed

theorem running (h : UpTo g tables names stream shifted c) (hserves : tables.Serves g)
    (hstart : g.StartUnused) (hreduce : AcceptsOnlyStart reduce) {c' : Configuration V Nat ρ}
    (hstep : (streaming tables names stream reduce).step c = .running c') :
    ∃ shifted', UpTo g tables names stream shifted' c' := by
  rcases h.step hserves hstart hreduce with ⟨shifted', next, hnext, hkept⟩ | ⟨r, hr, -⟩ |
    ⟨-, hfail⟩
  · rw [hstep] at hnext
    cases hnext
    exact ⟨shifted', hkept⟩
  · rw [hstep] at hr
    cases hr
  · rw [hstep] at hfail
    cases hfail

theorem stopped (h : UpTo g tables names stream shifted c) (hserves : tables.Serves g)
    (hfree : g.ConflictFree) (hstart : g.StartUnused) (hproductive : g.Productive)
    (hreduce : AcceptsOnlyStart reduce) {r : Result V Nat ρ}
    (hstep : (streaming tables names stream reduce).step c = .stopped r) : Blames g stream r := by
  intro pos found hvalue
  rcases h.step hserves hstart hreduce with ⟨-, next, hnext, -⟩ | ⟨r', hr, hok⟩ | ⟨hnone, hfail⟩
  · rw [hstep] at hnext
    cases hnext
  · rw [hstep] at hr
    cases hr
    rw [hvalue] at hok
    cases hok
  · rw [hstep] at hfail
    cases hfail
    cases hvalue
    exact ⟨shifted, h.source, rfl, h.offends hserves hfree hstart hproductive hnone⟩

end UpTo

-- A parse that meets an unexpected token is at the last token it read. What it read before begins a
-- sentence, and no sentence goes on with that token.
theorem parse_error_local (hcompile : g.compile = .ok (tables, [])) (hstart : g.StartUnused)
    (hproductive : g.Productive) {stream : Nat → Input V}
    {reduce : Nat → Handle V → ρ → Except ParseError (Reduction V) × ρ}
    (hreduce : AcceptsOnlyStart reduce) {fuel : Nat} {memory : ρ} {r : Result V Nat ρ}
    (h : (streaming tables names stream reduce).parse fuel 0 memory = some r) {pos : Position}
    {found : String} (hvalue : r.value = .error ⟨pos, .unexpectedToken found⟩) :
    ∃ k, r.source = k + 1 ∧ pos = (stream k).pos ∧ Offends g stream k := by
  have hserves := Grammar.serves_of_compile hcompile
  have hfree : g.ConflictFree := Grammar.conflictFree_of_compile hcompile
  have hblames : Blames g stream r := by
    refine Environment.run_induction (fun c => ∃ shifted, UpTo g tables names stream shifted c)
      ?_ ?_ ⟨0, .start g tables names stream memory⟩ h
    · intro c c' hc hstep
      obtain ⟨shifted, hc⟩ := hc
      exact hc.running hserves hstart hreduce hstep
    · intro c r hc hstep
      obtain ⟨shifted, hc⟩ := hc
      exact hc.stopped hserves hfree hstart hproductive hreduce hstep
  exact hblames pos found hvalue

theorem sums_productive : sums.Productive := by
  have hnumber : sums.Yields [.nonterminal 3] [0] :=
    @Grammar.Yields.nonterminal sums 5 ⟨3, [.terminal 0]⟩ _ _ _ rfl (.terminal .nil) .nil
  have hproduct : sums.Yields [.nonterminal 2] [0] :=
    @Grammar.Yields.nonterminal sums 4 ⟨2, [.nonterminal 3]⟩ _ _ _ rfl hnumber .nil
  have hsum : sums.Yields [.nonterminal 1] [0] :=
    @Grammar.Yields.nonterminal sums 2 ⟨1, [.nonterminal 2]⟩ _ _ _ rfl hproduct .nil
  have hstart : sums.Yields [.nonterminal 0] [0] :=
    @Grammar.Yields.nonterminal sums 0 ⟨0, [.nonterminal 1]⟩ _ _ _ rfl hsum .nil
  intro n hn
  change n < 4 at hn
  match n, hn with
  | 0, _ => exact ⟨_, hstart⟩
  | 1, _ => exact ⟨_, hsum⟩
  | 2, _ => exact ⟨_, hproduct⟩
  | 3, _ => exact ⟨_, hnumber⟩

-- Reductions that build nothing and only count.
def countReductions (production : Nat) (_ : Handle Unit) (count : Nat) :
    Except ParseError (Reduction Unit) × Nat :=
  (.ok ⟨(), production == 0⟩, count + 1)

-- No sum goes on with a times sign behind a plus sign. The number before it is reduced all the
-- same.
theorem parse_error_local_times : ∃ r,
    (streaming sumTables [] (sumStream [0, 1, 2]) countReductions).parse 20 0 0 = some r ∧
      r.value = .error ⟨⟨1, 3⟩, .unexpectedToken "symbol #2"⟩ ∧ r.memory = 3 ∧
      ∃ k, r.source = k + 1 ∧ ⟨1, 3⟩ = (sumStream [0, 1, 2] k).pos ∧
        Offends sums (sumStream [0, 1, 2]) k := by
  have hends : ((streaming sumTables [] (sumStream [0, 1, 2]) countReductions).parse 20 0 0).any
      (fun r => (match r.value with
        | .error e => decide (e = ⟨⟨1, 3⟩, .unexpectedToken "symbol #2"⟩)
        | .ok _ => false) && r.memory == 3) = true := by decide +kernel
  obtain ⟨r, hr, hends⟩ := (Option.any_eq_true _ _).mp hends
  rw [Bool.and_eq_true, beq_iff_eq] at hends
  obtain ⟨hvalue, hmemory⟩ := hends
  have hvalue : r.value = .error ⟨⟨1, 3⟩, .unexpectedToken "symbol #2"⟩ := by
    split at hvalue
    · rename_i e he
      rw [he, of_decide_eq_true hvalue]
    · cases hvalue
  have haccepts : AcceptsOnlyStart countReductions := fun _ _ count => ⟨(), count + 1, rfl⟩
  exact ⟨r, hr, hvalue, hmemory,
    parse_error_local compile_sums sums_startUnused sums_productive haccepts hr hvalue⟩

end Stencil.Parser
