import Stencil.Grammar.Ascending
import Stencil.Grammar.Basic

namespace Stencil

-- A rule with a dot before the symbol of its right side that is read next.
structure Item where
  rule : Nat
  dot : Nat
  deriving Repr, DecidableEq

namespace Item

def before (i j : Item) : Bool := i.rule < j.rule || (i.rule = j.rule && i.dot < j.dot)

def advance (i : Item) : Item := ⟨i.rule, i.dot + 1⟩

end Item

-- A state is given by the items it was entered with.
abbrev Kernel := List Item

namespace Grammar

def nextSymbol? (g : Grammar) (i : Item) : Option Symbol :=
  (g.rules[i.rule]?).bind fun rule => rule.right[i.dot]?

-- The non-terminal that the item reads next.
def nextNonterminal? (g : Grammar) (i : Item) : Option Nat :=
  match g.nextSymbol? i with
  | some (.nonterminal n) => some n
  | _ => none

-- One round of: whoever starts with `m` also starts with what a rule of `m` starts with.
def leftCornerRound (g : Grammar) (corners : Array (List Nat)) : Array (List Nat) :=
  g.rules.foldl (fun corners rule =>
    match rule.right with
    | .nonterminal m :: _ =>
      corners.modify rule.left (Ascending.union · (corners.getD m []))
    | _ => corners) corners

-- The non-terminals that a non-terminal can start with, itself among them.
def leftCorners (g : Grammar) : Array (List Nat) :=
  settle g.leftCornerRound (g.nonterminals * g.nonterminals + 1)
    (Array.ofFn fun n : Fin g.nonterminals => [n.val])

-- The items of a state: those of its kernel, and the beginning of every rule that can apply at
-- one of their dots.
def closure (g : Grammar) (corners : Array (List Nat)) (kernel : Kernel) : List Item :=
  let heads := kernel.foldl (fun s i =>
    match g.nextNonterminal? i with
    | some n => Ascending.union s (corners.getD n [])
    | none => s) []
  let opened := (List.range g.rules.size).filterMap fun r =>
    match g.rules[r]? with
    | some rule =>
      if heads.contains rule.left && !kernel.contains ⟨r, 0⟩ then some (⟨r, 0⟩ : Item) else none
    | none => none
  kernel ++ opened

-- The symbols that the items read next.
def nextSymbols (g : Grammar) (items : List Item) : List Symbol :=
  Ascending.ofListBy Symbol.before (items.filterMap g.nextSymbol?)

-- The kernel that the items reach over a symbol.
def successor (g : Grammar) (items : List Item) (symbol : Symbol) : Kernel :=
  Ascending.ofListBy Item.before
    ((items.filter fun i => g.nextSymbol? i = some symbol).map Item.advance)

-- The rules that the items have read to their end.
def completed (g : Grammar) (items : List Item) : List Nat :=
  Ascending.ofListBy (· < ·) ((items.filter fun i => (g.nextSymbol? i).isNone).map Item.rule)

end Grammar

-- What is known of a state once its items are worked out.
structure StateInfo where
  edges : List (Symbol × Nat)
  completed : List Nat
  deriving Repr, DecidableEq

-- States are numbered in the order in which they are met; those that `infos` reaches are done.
structure Automaton where
  kernels : Array Kernel
  infos : Array StateInfo
  deriving Repr

namespace Automaton

-- The number of a kernel, which is a new one if it was not met before.
def intern (a : Automaton) (kernel : Kernel) : Nat × Automaton :=
  match a.kernels.findIdx? (· = kernel) with
  | some i => (i, a)
  | none => (a.kernels.size, { a with kernels := a.kernels.push kernel })

-- Works out the edges over the given symbols, in their order.
def link (g : Grammar) (items : List Item) :
    List Symbol → Automaton → List (Symbol × Nat) × Automaton
  | [], a => ([], a)
  | symbol :: rest, a =>
    let (target, a) := a.intern (g.successor items symbol)
    let (edges, a) := link g items rest a
    ((symbol, target) :: edges, a)

-- Works out the first state that is not done.
def exploreNext (g : Grammar) (corners : Array (List Nat)) (a : Automaton) (kernel : Kernel) :
    Automaton :=
  let items := g.closure corners kernel
  let (edges, a) := link g items (g.nextSymbols items) a
  { a with infos := a.infos.push ⟨edges, g.completed items⟩ }

def explore (g : Grammar) (corners : Array (List Nat)) : Nat → Automaton → Automaton
  | 0, a => a
  | fuel + 1, a =>
    match a.kernels[a.infos.size]? with
    | some kernel => explore g corners fuel (exploreNext g corners a kernel)
    | none => a

end Automaton

namespace Grammar

def itemCount (g : Grammar) : Nat := g.rules.foldl (fun n rule => n + rule.right.length + 1) 0

-- The states reachable from the beginning of the start rule. Their kernels are different sets of
-- items, so there are no more than the power set has.
def automaton (g : Grammar) : Automaton :=
  .explore g g.leftCorners (Nat.pow 2 g.itemCount) ⟨#[[⟨0, 0⟩]], #[]⟩

end Grammar

end Stencil
