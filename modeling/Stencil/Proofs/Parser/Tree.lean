import Stencil.Proofs.Parser.Stack

namespace Stencil.Parser

-- A token that was read, or a production over the trees of its right side.
inductive ParseTree (α : Type) where
  | leaf (token : Input α)
  | node (production : Nat) (children : List (ParseTree α))

namespace ParseTree

variable {α : Type}

mutual

-- The tokens of a tree from left to right.
def leaves : ParseTree α → List (Input α)
  | leaf token => [token]
  | node _ children => leavesOf children

def leavesOf : List (ParseTree α) → List (Input α)
  | [] => []
  | tree :: rest => tree.leaves ++ leavesOf rest

end

theorem leavesOf_eq_flatMap (trees : List (ParseTree α)) : leavesOf trees = trees.flatMap leaves := by
  induction trees with
  | nil => rfl
  | cons tree rest ih => rw [leavesOf, ih, List.flatMap_cons]

mutual

-- One for every token and every production: the steps that a parse takes to build the tree.
def size : ParseTree α → Nat
  | leaf _ => 1
  | node _ children => sizes children + 1

def sizes : List (ParseTree α) → Nat
  | [] => 0
  | tree :: rest => tree.size + sizes rest

end

-- What holds of a node whenever it holds of all its children holds of every tree.
theorem induction {motive : ParseTree α → Prop} (leaf : ∀ token, motive (.leaf token))
    (node : ∀ p children, (∀ child ∈ children, motive child) → motive (.node p children))
    (tree : ParseTree α) : motive tree :=
  @ParseTree.rec α motive (fun children => ∀ child ∈ children, motive child) leaf node (by simp)
    (fun _ _ hfirst hrest => List.forall_mem_cons.mpr ⟨hfirst, hrest⟩) tree

end ParseTree

-- Every node stands for a rule whose right side its children spell.
inductive Derives (g : Grammar) {α : Type} : Symbol → ParseTree α → Prop
  | leaf (token : Input α) : Derives g (.terminal token.symbol) (.leaf token)
  | node {p : Nat} {rule : Rule} {children : List (ParseTree α)} (hrule : g.rules[p]? = some rule)
      (hchildren : List.Forall₂ (Derives g) rule.right children) :
      Derives g (.nonterminal rule.left) (.node p children)

-- Tokens come off a stream, whose state is how many were taken. Every reduction builds a node,
-- and rule 0 ends the parse.
def treeEnvironment (tables : Tables) (names : List String) (stream : Nat → Input α) :
    Environment (ParseTree α) Nat Unit where
  tables := tables
  terminalNames := names
  next taken := (.ok ⟨(stream taken).symbol, .leaf (stream taken), (stream taken).pos⟩, taken + 1)
  reduce production handle memory :=
    (.ok ⟨.node production (handle.frames.map Frame.value), production == 0⟩, memory)

-- Tokens come off a stream, and the reductions are done by any means.
def streaming (tables : Tables) (names : List String) (stream : Nat → Input V)
    (reduce : Nat → Handle V → ρ → Except ParseError (Reduction V) × ρ) : Environment V Nat ρ where
  tables := tables
  terminalNames := names
  next taken := (.ok (stream taken), taken + 1)
  reduce := reduce

-- A list of tokens, and behind it the same token for ever.
def endless (tokens : List (Input α)) (last : Input α) (i : Nat) : Input α := tokens.getD i last

variable {α : Type} {g : Grammar}

-- The tokens are empty and the symbols can vanish, or the symbols can start with the first token.
def Begins (g : Grammar) (symbols : List Symbol) (tokens : List (Input α)) : Prop :=
  match tokens with
  | [] => (g.firstSets.ofString symbols).2 = true
  | token :: _ => token.symbol ∈ (g.firstSets.ofString symbols).1

theorem Begins.nil : Begins g [] ([] : List (Input α)) := rfl

theorem Begins.terminal (token : Input α) (rest : List (Input α)) (symbols : List Symbol) :
    Begins g (.terminal token.symbol :: symbols) (token :: rest) := by
  simp [Begins, FirstSets.ofString]

-- A non-terminal begins with its own tokens, or with what comes behind it if it has none.
theorem Begins.nonterminal {n : Nat} {symbols : List Symbol} {tokens rest : List (Input α)}
    (hnullable : tokens = [] → g.firstSets.isNullable n = true)
    (hfirst : ∀ {token more}, tokens = token :: more → token.symbol ∈ g.firstSets.firstOf n)
    (hrest : Begins g symbols rest) : Begins g (.nonterminal n :: symbols) (tokens ++ rest) := by
  cases tokens with
  | nil =>
      simp only [Begins, FirstSets.ofString, hnullable rfl, if_true] at hrest ⊢
      cases rest with
      | nil => exact hrest
      | cons token more => exact Ascending.mem_union.mpr (.inr hrest)
  | cons token more =>
      have htoken := hfirst rfl
      simp only [Begins, FirstSets.ofString, List.cons_append]
      split
      · exact Ascending.mem_union.mpr (.inl htoken)
      · exact htoken

-- What a rule begins with, its left side begins with.
theorem Begins.rule (hg : g.Valid) {rule : Rule} (hrule : rule ∈ g.rules) {tokens : List (Input α)}
    (h : Begins g rule.right tokens) :
    (tokens = [] → g.firstSets.isNullable rule.left = true) ∧
      ∀ {token more}, tokens = token :: more → token.symbol ∈ g.firstSets.firstOf rule.left := by
  obtain ⟨hfirst, hnullable⟩ := Grammar.firstSets_closed hg hrule
  constructor
  · rintro rfl
    exact hnullable h
  · rintro token more rfl
    exact hfirst h

theorem begins_of_forall₂ {symbols : List Symbol} {trees : List (ParseTree α)}
    (hnode : ∀ tree ∈ trees, ∀ n, Derives g (.nonterminal n) tree →
      (tree.leaves = [] → g.firstSets.isNullable n = true) ∧
        ∀ {token more}, tree.leaves = token :: more → token.symbol ∈ g.firstSets.firstOf n)
    (h : List.Forall₂ (Derives g) symbols trees) :
    Begins g symbols (ParseTree.leavesOf trees) := by
  induction h with
  | nil => exact .nil
  | @cons symbol tree symbols trees hfirst _ ih =>
      have hrest := ih fun t ht => hnode t (by simp [ht])
      rw [ParseTree.leavesOf]
      cases symbol with
      | terminal t =>
          cases hfirst
          exact .terminal _ _ _
      | nonterminal n =>
          obtain ⟨hnullable, hmem⟩ := hnode tree (by simp) n hfirst
          exact .nonterminal hnullable hmem hrest

theorem begins_of_derives (hg : g.Valid) (tree : ParseTree α) : ∀ n, Derives g (.nonterminal n) tree →
    (tree.leaves = [] → g.firstSets.isNullable n = true) ∧
      ∀ {token more}, tree.leaves = token :: more → token.symbol ∈ g.firstSets.firstOf n := by
  induction tree using ParseTree.induction with
  | leaf token =>
      intro n h
      cases h
  | node p children ih =>
      intro n h
      cases h with
      | node hrule hchildren =>
          exact (begins_of_forall₂ ih hchildren).rule hg (Array.mem_of_getElem? hrule)

-- The trees of a string of symbols begin with what the string can begin with.
theorem begins_of_trees (hg : g.Valid) {symbols : List Symbol} {trees : List (ParseTree α)}
    (h : List.Forall₂ (Derives g) symbols trees) : Begins g symbols (ParseTree.leavesOf trees) :=
  begins_of_forall₂ (fun tree _ => begins_of_derives hg tree) h

-- Behind a non-terminal of a right side comes the first token of what stands there, or else what
-- follows the whole.
theorem mem_followOf (hg : g.Valid) {rule : Rule} (hrule : rule ∈ g.rules)
    {before rest : List Symbol} {n : Nat} (hright : rule.right = before ++ .nonterminal n :: rest)
    {trees : List (ParseTree α)} (htrees : List.Forall₂ (Derives g) rest trees) {next : Input α}
    (hnext : next.symbol ∈ g.followOf rule.left) :
    ((ParseTree.leavesOf trees).headD next).symbol ∈ g.followOf n := by
  obtain ⟨hfirst, hfollow⟩ := Grammar.followOf_closed hg hrule hright
  have hbegins := begins_of_trees hg htrees
  cases hleaves : ParseTree.leavesOf trees with
  | nil =>
      rw [hleaves] at hbegins
      exact hfollow hbegins hnext
  | cons token more =>
      rw [hleaves] at hbegins
      exact hfirst hbegins

end Stencil.Parser
