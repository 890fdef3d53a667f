import Stencil.Proofs.Parser.Tree

namespace Stencil.Parser

variable {α : Type} {g : Grammar} {tables : Tables} {names : List String} {stream : Nat → Input α}

-- The tree stands for the start rule, and its children spell the right side of that.
def StartTree (g : Grammar) (tree : ParseTree α) : Prop :=
  ∃ rule children, g.rules[0]? = some rule ∧ tree = .node 0 children ∧
    List.Forall₂ (Derives g) rule.right children

theorem treeEnvironment_acceptsStart : (treeEnvironment tables names stream).AcceptsStart := by
  intro handle memory reduction memory' h
  cases h
  rfl

-- The trees on the stack derive the symbols of a path, and their leaves are the `shifted` tokens
-- before the lookahead.
structure Shifted (g : Grammar) (stream : Nat → Input α) (shifted : Nat)
    (c : Configuration (ParseTree α) Nat Unit) : Prop where
  path : ∃ symbols, Path g (Derives g) symbols c.stack
  source : c.source = shifted + 1
  lookahead : c.lookahead = ⟨(stream shifted).symbol, .leaf (stream shifted), (stream shifted).pos⟩
  leaves : ParseTree.leavesOf (c.stack.map Frame.value).reverse = (List.range shifted).map stream

-- What a parse can end with: never a complaint about its own tables, and a tree only if that is a
-- derivation of all the tokens shifted, with the end of input as the unread lookahead.
structure Ends (g : Grammar) (stream : Nat → Input α) (r : Result (ParseTree α) Nat Unit) :
    Prop where
  notCorrupt : ∀ pos reason, r.value ≠ .error ⟨pos, .corruptTables reason⟩
  derives : ∀ tree, r.value = .ok tree → ∃ shifted, StartTree g tree ∧
    tree.leaves = (List.range shifted).map stream ∧ r.source = shifted + 1 ∧
    (stream shifted).symbol = g.eof

namespace Shifted

variable {shifted : Nat} {c : Configuration (ParseTree α) Nat Unit}

theorem move (h : Shifted g stream shifted c) (names : List String) (hserves : tables.Serves g)
    (hstart : g.StartUnused) : ∃ symbols, Path g (Derives g) symbols c.stack ∧
      Move g (Derives g) (treeEnvironment tables names stream) symbols c := by
  obtain ⟨symbols, hpath⟩ := h.path
  exact ⟨symbols, hpath, hpath.move hserves hstart treeEnvironment_acceptsStart⟩

theorem running (h : Shifted g stream shifted c) (hserves : tables.Serves g)
    (hstart : g.StartUnused) {c' : Configuration (ParseTree α) Nat Unit}
    (hstep : (treeEnvironment tables names stream).step c = .running c') :
    ∃ shifted', Shifted g stream shifted' c' := by
  obtain ⟨symbols, hpath, hmove⟩ := h.move names hserves hstart
  cases hmove with
  | shift q edge step =>
      rw [step] at hstep
      cases hstep
      refine ⟨shifted + 1, ?_, by simp [h.source], by simp [h.source], ?_⟩
      · refine ⟨_, .push hpath edge ?_⟩
        rw [h.lookahead]
        exact .leaf (stream shifted)
      · have hleaves := h.leaves
        simp only [ParseTree.leavesOf_eq_flatMap] at hleaves ⊢
        simp [List.range_succ, hleaves, h.lookahead, ParseTree.leaves]
  | reduce p rule hrule rest handle below hsymbols hstack hhandle hbelow hbegin hp target edge step =>
      rw [step] at hstep
      simp only [Environment.reduced, treeEnvironment, beq_false_of_ne hp] at hstep
      cases hstep
      refine ⟨shifted, ⟨_, .push hbelow edge (.node hrule hhandle)⟩, h.source, h.lookahead, ?_⟩
      have hleaves := h.leaves
      simp only [ParseTree.leavesOf_eq_flatMap] at hleaves ⊢
      simp [← hleaves, hstack, ParseTree.leaves, ParseTree.leavesOf_eq_flatMap]
  | accept rule hrule handle hsymbols hstack hhandle heof step =>
      rw [step] at hstep
      cases hstep
  | fail hnone step =>
      rw [step] at hstep
      cases hstep

theorem stopped (h : Shifted g stream shifted c) (hserves : tables.Serves g)
    (hstart : g.StartUnused) {r : Result (ParseTree α) Nat Unit}
    (hstep : (treeEnvironment tables names stream).step c = .stopped r) : Ends g stream r := by
  obtain ⟨symbols, hpath, hmove⟩ := h.move names hserves hstart
  cases hmove with
  | shift q edge step =>
      rw [step] at hstep
      cases hstep
  | reduce p rule hrule rest handle below hsymbols hstack hhandle hbelow hbegin hp target edge step =>
      rw [step] at hstep
      simp only [Environment.reduced, treeEnvironment, beq_false_of_ne hp] at hstep
      cases hstep
  | accept rule hrule handle hsymbols hstack hhandle heof step =>
      rw [step] at hstep
      cases hstep
      refine ⟨by simp, ?_⟩
      rintro tree ⟨⟩
      refine ⟨shifted, ⟨rule, _, hrule, rfl, hhandle⟩, ?_, h.source, ?_⟩
      · rw [← h.leaves, hstack, List.map_reverse, List.reverse_reverse]
        rfl
      · rw [← heof, h.lookahead]
  | fail hnone step =>
      rw [step] at hstep
      cases hstep
      exact ⟨by simp, by simp⟩

end Shifted

-- Parsing is sound for the tables of any grammar, conflicts or not, over any stream of tokens, such
-- as a list with the end of input behind it for ever.
theorem parse_sound {conflicts : List Conflict} (hcompile : g.compile = .ok (tables, conflicts))
    (hstart : g.StartUnused) {fuel : Nat} {r : Result (ParseTree α) Nat Unit}
    (h : (treeEnvironment tables names stream).parse fuel 0 () = some r) : Ends g stream r := by
  have hserves := Grammar.serves_of_compile hcompile
  refine Environment.run_induction (fun c => ∃ shifted, Shifted g stream shifted c)
    (fun ⟨_, hc⟩ hstep => hc.running hserves hstart hstep)
    (fun ⟨_, hc⟩ hstep => hc.stopped hserves hstart hstep) ⟨0, ?_⟩ h
  exact ⟨⟨[], .empty⟩, rfl, rfl, rfl⟩

-- Sums of products with parentheses. The terminals are a number, plus, times and the parentheses.
def sums : Grammar where
  terminals := 5
  nonterminals := 4
  eof := 5
  rules := #[⟨0, [.nonterminal 1]⟩,
    ⟨1, [.nonterminal 1, .terminal 1, .nonterminal 2]⟩, ⟨1, [.nonterminal 2]⟩,
    ⟨2, [.nonterminal 2, .terminal 2, .nonterminal 3]⟩, ⟨2, [.nonterminal 3]⟩,
    ⟨3, [.terminal 0]⟩, ⟨3, [.terminal 3, .nonterminal 1, .terminal 4]⟩]

def sumTables : Tables := ((sums.compile.toOption).map Prod.fst).getD .empty

theorem compile_sums : sums.compile = .ok (sumTables, []) := by decide +kernel

theorem sums_startUnused : sums.StartUnused := by decide

-- Terminals on one line, in the columns from 1 on.
def sumTokens (symbols : List Nat) : List (Input Unit) :=
  symbols.mapIdx fun i symbol => ⟨symbol, (), ⟨1, i + 1⟩⟩

def sumStream (symbols : List Nat) : Nat → Input Unit := endless (sumTokens symbols) ⟨5, (), ⟨1, 0⟩⟩

-- A number times the sum of two numbers is read to its end.
theorem parse_sound_product : ∃ r,
    (treeEnvironment sumTables [] (sumStream [0, 2, 3, 0, 1, 0, 4])).parse 50 0 () = some r ∧
      r.value.isOk = true ∧ r.source = 8 ∧ Ends sums (sumStream [0, 2, 3, 0, 1, 0, 4]) r := by
  have hends : ((treeEnvironment sumTables [] (sumStream [0, 2, 3, 0, 1, 0, 4])).parse 50 0 ()).any
      (fun r => r.value.isOk && r.source == 8) = true := by decide +kernel
  obtain ⟨r, hr, hends⟩ := (Option.any_eq_true _ _).mp hends
  simp only [Bool.and_eq_true, beq_iff_eq] at hends
  exact ⟨r, hr, hends.1, hends.2, parse_sound compile_sums sums_startUnused hr⟩

end Stencil.Parser
