import Stencil.Proofs.Parser.Tree
import Stencil.Proofs.Parser.Soundness

namespace Stencil.Parser

variable {α : Type} {g : Grammar} {tables : Tables} {names : List String} {stream : Nat → Input α}

-- The stream holds the tokens from place `k` on.
def Reads (stream : Nat → Input α) (k : Nat) (tokens : List (Input α)) : Prop :=
  ∀ i token, tokens[i]? = some token → stream (k + i) = token

namespace Reads

variable {k : Nat} {first rest : List (Input α)}

theorem left (h : Reads stream k (first ++ rest)) : Reads stream k first :=
  fun i token hi => h i token (List.getElem?_append_left (List.getElem?_eq_some_iff.mp hi).1 ▸ hi)

theorem right (h : Reads stream k (first ++ rest)) : Reads stream (k + first.length) rest := by
  intro i token hi
  have hlater : (first ++ rest)[first.length + i]? = some token := by
    rw [List.getElem?_append_right (Nat.le_add_right _ _), Nat.add_sub_cancel_left]
    exact hi
  rw [Nat.add_assoc]
  exact h _ token hlater

theorem headD (h : Reads stream k rest) : stream k = rest.headD (stream (k + rest.length)) := by
  cases rest with
  | nil => rfl
  | cons token more => exact h 0 token rfl

end Reads

-- Where a parse stands when the tokens before place `k` have been shifted.
def standing (stream : Nat → Input α) (stack : List (Frame (ParseTree α))) (k : Nat) :
    Configuration (ParseTree α) Nat Unit :=
  ⟨stack, ⟨(stream k).symbol, .leaf (stream k), (stream k).pos⟩, k + 1, ()⟩

-- From a state that expects the symbol, a parse shifts the tokens of the tree and ends with the
-- tree on the stack, as long as the token behind may follow.
def TreeRuns (g : Grammar) (env : Environment (ParseTree α) Nat Unit) (stream : Nat → Input α)
    (tree : ParseTree α) : Prop :=
  ∀ {symbol stack i k target}, Derives g symbol tree → i ∈ g.itemsAt (topState stack) →
    g.nextSymbol? i = some symbol → g.Edge (topState stack) symbol target →
    Reads stream k tree.leaves →
    (∀ n, symbol = .nonterminal n → (stream (k + tree.leaves.length)).symbol ∈ g.followOf n) →
    ∃ frame, frame.value = tree ∧ frame.state = target ∧
      ∀ fuel, env.run (tree.size + fuel) (standing stream stack k) =
        env.run fuel (standing stream (frame :: stack) (k + tree.leaves.length))

-- The same for the trees behind the dot of an item. It carries the dot to the end.
theorem run_trees {env : Environment (ParseTree α) Nat Unit} (hg : g.Valid) {r : Nat} {rule : Rule}
    (hrule : g.rules[r]? = some rule) {symbols : List Symbol} {trees : List (ParseTree α)}
    (htrees : List.Forall₂ (Derives g) symbols trees)
    (hruns : ∀ tree ∈ trees, TreeRuns g env stream tree) {before : List Symbol}
    (hright : rule.right = before ++ symbols) {stack : List (Frame (ParseTree α))}
    (hitem : (⟨r, before.length⟩ : Item) ∈ g.itemsAt (topState stack)) {k : Nat}
    (hreads : Reads stream k (ParseTree.leavesOf trees))
    (hfollow : (stream (k + (ParseTree.leavesOf trees).length)).symbol ∈ g.followOf rule.left) :
    ∃ handle : List (Frame (ParseTree α)), handle.map Frame.value = trees ∧
      (⟨r, rule.right.length⟩ : Item) ∈ g.itemsAt (topState (handle.reverse ++ stack)) ∧
      ∀ fuel, env.run (ParseTree.sizes trees + fuel) (standing stream stack k) =
        env.run fuel (standing stream (handle.reverse ++ stack)
          (k + (ParseTree.leavesOf trees).length)) := by
  induction htrees generalizing before stack k with
  | nil =>
      refine ⟨[], rfl, ?_, fun fuel => by simp [ParseTree.sizes, ParseTree.leavesOf]⟩
      simpa [hright] using hitem
  | @cons symbol tree symbols trees htree htrees ih =>
      have hnext : g.nextSymbol? ⟨r, before.length⟩ = some symbol :=
        Grammar.nextSymbol?_eq_some.mpr ⟨rule, hrule, by simp [hright]⟩
      obtain ⟨target, hedge⟩ := Grammar.exists_edge hg hitem hnext
      rw [ParseTree.leavesOf] at hreads hfollow
      rw [List.length_append, ← Nat.add_assoc] at hfollow
      have hrest := hreads.right
      -- The token behind the first tree begins the others, or follows the whole rule.
      have hbehind : ∀ n, symbol = .nonterminal n →
          (stream (k + tree.leaves.length)).symbol ∈ g.followOf n := by
        rintro n rfl
        rw [hrest.headD]
        exact mem_followOf hg (Array.mem_of_getElem? hrule) hright htrees hfollow
      obtain ⟨frame, hvalue, hstate, hfirst⟩ :=
        hruns tree (by simp) htree hitem hnext hedge hreads.left hbehind
      have hadvanced : (⟨r, (before ++ [symbol]).length⟩ : Item) ∈
          g.itemsAt (topState (frame :: stack)) := by
        rw [List.length_append]
        simp only [topState, hstate]
        exact (hedge.mem_itemsAt hg).mpr ⟨hitem, hnext⟩
      obtain ⟨handle, hhandle, hend, hothers⟩ :=
        ih (fun t ht => hruns t (by simp [ht])) (by simpa using hright) hadvanced hrest hfollow
      refine ⟨frame :: handle, by simp [hvalue, hhandle], by simpa using hend, ?_⟩
      intro fuel
      rw [ParseTree.sizes, Nat.add_assoc, hfirst, hothers]
      simp [ParseTree.leavesOf, Nat.add_assoc]

theorem run_token (hserves : tables.Serves g) {stack : List (Frame (ParseTree α))} {k target : Nat}
    (hedge : g.Edge (topState stack) (.terminal (stream k).symbol) target) :
    ∃ frame, frame.value = .leaf (stream k) ∧ frame.state = target ∧
      ∀ fuel, (treeEnvironment tables names stream).run (1 + fuel) (standing stream stack k) =
        (treeEnvironment tables names stream).run fuel (standing stream (frame :: stack) (k + 1)) := by
  refine ⟨⟨(stream k).symbol, .leaf (stream k), target, (stream k).pos⟩, rfl, rfl, ?_⟩
  intro fuel
  have haction := (Grammar.actionOn_eq_shift hserves.valid).mpr hedge
  have hstep := (treeEnvironment tables names stream).step_eq hserves (standing stream stack k)
  simp only [standing, haction] at hstep
  rw [Nat.add_comm, Environment.run, standing, hstep]
  rfl

-- With its children on top of the stack, a production is reduced.
theorem step_node (names : List String) (hserves : tables.Serves g) (hfree : g.ConflictFree) {p : Nat} {rule : Rule}
    (hrule : g.rules[p]? = some rule) {handle below : List (Frame (ParseTree α))}
    (hlength : handle.length = rule.right.length)
    (hitem : (⟨p, rule.right.length⟩ : Item) ∈ g.itemsAt (topState (handle.reverse ++ below)))
    {k : Nat} (hfollow : (stream k).symbol ∈ g.followOf rule.left) {target : Nat}
    (hgoto : p = 0 ∨ g.Edge (topState below) (.nonterminal rule.left) target) :
    (treeEnvironment tables names stream).step (standing stream (handle.reverse ++ below) k) =
      (treeEnvironment tables names stream).reduced
        (standing stream (handle.reverse ++ below) k) p ⟨handle⟩ below rule.left target := by
  have haction := hfree.actionOn_eq_reduce hserves.valid hrule hitem hfollow
  rw [(treeEnvironment tables names stream).step_eq hserves]
  simp only [standing, haction]
  apply Environment.reduceBy_eq hserves hrule rfl hlength
  rcases hgoto with rfl | hedge
  · right
    intro value memory hreduce
    cases hreduce
  · exact .inl ((Grammar.gotoOn_eq_some hserves.valid).mpr hedge)

theorem treeRuns (names : List String) (hserves : tables.Serves g) (hfree : g.ConflictFree) (hstart : g.StartUnused)
    (tree : ParseTree α) : TreeRuns g (treeEnvironment tables names stream) stream tree := by
  have hg := hserves.valid
  induction tree using ParseTree.induction with
  | leaf token =>
      intro symbol stack i k target hderives hitem hnext hedge hreads hfollow
      obtain rfl : stream k = token := hreads 0 token rfl
      cases hderives
      exact run_token hserves hedge
  | node p children ih =>
      intro symbol stack i k target hderives hitem hnext hedge hreads hfollow
      cases hderives with
      | @node p rule children hrule hchildren =>
          have hbegin : (⟨p, ([] : List Symbol).length⟩ : Item) ∈ g.itemsAt (topState stack) :=
            Grammar.itemsAt_closed hg hitem hrule hnext
          have hbehind : (stream (k + (ParseTree.leavesOf children).length)).symbol ∈
              g.followOf rule.left := hfollow rule.left rfl
          obtain ⟨handle, hvalues, hend, hrun⟩ :=
            run_trees hg hrule hchildren ih (List.nil_append _).symm hbegin hreads hbehind
          have hlength : handle.length = rule.right.length := by
            rw [hchildren.length_eq, ← hvalues, List.length_map]
          have hstep := step_node names hserves hfree hrule hlength hend hbehind
            (.inr hedge)
          -- The start rule begins in the first state only, where nothing expects its left side.
          have hp : p ≠ 0 := by
            rintro rfl
            obtain ⟨other, hother, hdot⟩ := Grammar.nextSymbol?_eq_some.mp hnext
            exact hstart rule hrule other (Array.mem_of_getElem? hother) (List.mem_of_getElem? hdot)
          refine ⟨⟨rule.left, .node p children, target, Handle.pos ⟨handle⟩⟩, rfl, rfl, ?_⟩
          intro fuel
          rw [ParseTree.size, Nat.add_assoc, hrun, Nat.add_comm 1, Environment.run, hstep]
          simp only [Environment.reduced, treeEnvironment, beq_false_of_ne hp, hvalues]
          rfl

theorem parse_startTree (hserves : tables.Serves g) (hfree : g.ConflictFree)
    (hstart : g.StartUnused) {tree : ParseTree α} (htree : StartTree g tree)
    (hreads : Reads stream 0 tree.leaves) (heof : (stream tree.leaves.length).symbol = g.eof)
    {fuel : Nat} (hfuel : tree.size ≤ fuel) :
    (treeEnvironment tables names stream).parse fuel 0 () =
      some ⟨.ok tree, tree.leaves.length + 1, ()⟩ := by
  have hg := hserves.valid
  obtain ⟨rule, children, hrule, rfl, hchildren⟩ := htree
  have hbehind : (stream (0 + (ParseTree.leavesOf children).length)).symbol ∈
      g.followOf rule.left := by
    rw [Nat.zero_add]
    exact heof ▸ Grammar.eof_mem_followOf hg hrule
  have hbegin : (⟨0, ([] : List Symbol).length⟩ : Item) ∈
      g.itemsAt (topState ([] : List (Frame (ParseTree α)))) := Grammar.start_mem_itemsAt hg
  obtain ⟨handle, hvalues, hend, hrun⟩ :=
    run_trees hg hrule hchildren (fun child _ => treeRuns names hserves hfree hstart child)
      (List.nil_append _).symm hbegin hreads hbehind
  have hlength : handle.length = rule.right.length := by
    rw [hchildren.length_eq, ← hvalues, List.length_map]
  have hstep := step_node names hserves hfree hrule hlength hend hbehind
    (.inl (b := g.Edge _ _ 0) rfl)
  obtain ⟨more, rfl⟩ := Nat.exists_eq_add_of_le hfuel
  calc (treeEnvironment tables names stream).parse _ 0 ()
      = (treeEnvironment tables names stream).run
          (ParseTree.sizes children + (1 + more)) (standing stream [] 0) := by
        rw [ParseTree.size, Nat.add_assoc]
        rfl
    _ = _ := by
        rw [hrun, Nat.add_comm 1, Environment.run, hstep]
        simp only [Environment.reduced, treeEnvironment, hvalues, standing, Nat.zero_add]
        rfl

theorem endless_reads (tokens : List (Input α)) (last : Input α) :
    Reads (endless tokens last) 0 tokens := by
  intro i token hi
  simp [endless, hi]

theorem endless_length (tokens : List (Input α)) (last : Input α) :
    endless tokens last tokens.length = last := by
  simp [endless]

-- A grammar without conflicts is parsed completely: every derivation tree is found again from its
-- leaves, and so no tokens have two of them.
theorem parse_complete (hcompile : g.compile = .ok (tables, [])) (hstart : g.StartUnused)
    {last : Input α} (hlast : last.symbol = g.eof) :
    (∀ tree, StartTree g tree → ∀ fuel ≥ tree.size,
      (treeEnvironment tables names (endless tree.leaves last)).parse fuel 0 () =
        some ⟨.ok tree, tree.leaves.length + 1, ()⟩) ∧
    ∀ tree other : ParseTree α, StartTree g tree → StartTree g other →
      tree.leaves = other.leaves → tree = other := by
  have hserves := Grammar.serves_of_compile hcompile
  have hparse : ∀ tree, StartTree g tree → ∀ fuel ≥ tree.size,
      (treeEnvironment tables names (endless tree.leaves last)).parse fuel 0 () =
        some ⟨.ok tree, tree.leaves.length + 1, ()⟩ := by
    intro tree htree fuel hfuel
    refine parse_startTree hserves (Grammar.conflictFree_of_compile hcompile) hstart htree
      (endless_reads _ _) ?_ hfuel
    rw [endless_length]
    exact hlast
  refine ⟨hparse, ?_⟩
  intro tree other htree hother hleaves
  have hfirst := hparse tree htree (max tree.size other.size) (Nat.le_max_left _ _)
  have hsecond := hparse other hother (max tree.size other.size) (Nat.le_max_right _ _)
  rw [hleaves] at hfirst
  have hsame := hfirst.symm.trans hsecond
  simpa using hsame

-- A number times the sum of two numbers.
def productTree : ParseTree Unit :=
  let token (symbol column : Nat) : ParseTree Unit := .leaf ⟨symbol, (), ⟨1, column⟩⟩
  let number (column : Nat) : ParseTree Unit := .node 5 [token 0 column]
  .node 0 [.node 2 [.node 3 [.node 4 [number 1], token 2 2, .node 6 [token 3 3,
    .node 1 [.node 2 [.node 4 [number 4]], token 1 5, .node 4 [number 6]], token 4 7]]]]

theorem productTree_startTree : StartTree sums productTree := by
  have hnumber (token : Input Unit) (h : token.symbol = 0) :
      Derives sums (.nonterminal 3) (.node 5 [.leaf token]) :=
    @Derives.node sums Unit 5 ⟨3, [.terminal 0]⟩ _ rfl (.cons (h ▸ .leaf token) .nil)
  have hfactor (token : Input Unit) (h : token.symbol = 0) :
      Derives sums (.nonterminal 2) (.node 4 [.node 5 [.leaf token]]) :=
    @Derives.node sums Unit 4 ⟨2, [.nonterminal 3]⟩ _ rfl (.cons (hnumber token h) .nil)
  have hsingle {tree : ParseTree Unit} (h : Derives sums (.nonterminal 2) tree) :
      Derives sums (.nonterminal 1) (.node 2 [tree]) :=
    @Derives.node sums Unit 2 ⟨1, [.nonterminal 2]⟩ _ rfl (.cons h .nil)
  have hsum := @Derives.node sums Unit 1 ⟨1, [.nonterminal 1, .terminal 1, .nonterminal 2]⟩ _ rfl
    (.cons (hsingle (hfactor ⟨0, (), ⟨1, 4⟩⟩ rfl))
      (.cons (.leaf ⟨1, (), ⟨1, 5⟩⟩) (.cons (hfactor ⟨0, (), ⟨1, 6⟩⟩ rfl) .nil)))
  have hparens := @Derives.node sums Unit 6 ⟨3, [.terminal 3, .nonterminal 1, .terminal 4]⟩ _ rfl
    (.cons (.leaf ⟨3, (), ⟨1, 3⟩⟩) (.cons hsum (.cons (.leaf ⟨4, (), ⟨1, 7⟩⟩) .nil)))
  have hproduct := @Derives.node sums Unit 3 ⟨2, [.nonterminal 2, .terminal 2, .nonterminal 3]⟩ _
    rfl (.cons (hfactor ⟨0, (), ⟨1, 1⟩⟩ rfl) (.cons (.leaf ⟨2, (), ⟨1, 2⟩⟩) (.cons hparens .nil)))
  exact ⟨⟨0, [.nonterminal 1]⟩, _, rfl, rfl, .cons (hsingle hproduct) .nil⟩

theorem parse_complete_product :
    StartTree sums productTree ∧
      (treeEnvironment sumTables [] (endless productTree.leaves ⟨5, (), ⟨1, 8⟩⟩)).parse 20 0 () =
        some ⟨.ok productTree, 8, ()⟩ :=
  ⟨productTree_startTree, (parse_complete compile_sums sums_startUnused rfl).1 productTree
    productTree_startTree 20 (by decide)⟩

end Stencil.Parser
