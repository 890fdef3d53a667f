namespace Stencil

-- Terminals and non-terminals are numbered apart.
inductive Symbol where
  | terminal (t : Nat)
  | nonterminal (n : Nat)
  deriving Repr, DecidableEq

namespace Symbol

-- Terminals come before non-terminals, each by number.
def before : Symbol → Symbol → Bool
  | terminal s, terminal t => s < t
  | terminal _, nonterminal _ => true
  | nonterminal _, terminal _ => false
  | nonterminal m, nonterminal n => m < n

def text : Symbol → String
  | terminal t => "T(" ++ toString t ++ ")"
  | nonterminal n => "N(" ++ toString n ++ ")"

end Symbol

structure Rule where
  left : Nat
  right : List Symbol
  deriving Repr, DecidableEq

-- Rule 0 is the start rule: its left side is the start symbol.
structure Grammar where
  terminals : Nat
  nonterminals : Nat
  eof : Nat
  rules : Array Rule
  deriving Repr, DecidableEq

-- Why a grammar has no tables.
inductive GrammarError where
  | empty
  | unknownSymbol (production : Nat) (symbol : Symbol)
  | tooLarge (limit : Nat)
  deriving Repr, DecidableEq

namespace GrammarError

def message : GrammarError → String
  | empty => "Grammar has no productions"
  | unknownSymbol production symbol =>
    "Production " ++ toString production ++ " refers to unknown symbol " ++ symbol.text
  | tooLarge limit => "Grammar produces more than " ++ toString limit ++ " states or symbols"

end GrammarError

namespace Grammar

def knows (g : Grammar) : Symbol → Bool
  | .terminal t => t < g.terminals
  | .nonterminal n => n < g.nonterminals

-- The first symbol of a rule that the grammar does not know, its left side first.
def unknownIn (g : Grammar) (rule : Rule) : Option Symbol :=
  (.nonterminal rule.left :: rule.right).find? fun symbol => !g.knows symbol

def unknownFrom (g : Grammar) : Nat → List Rule → Option (Nat × Symbol)
  | _, [] => none
  | i, rule :: rest =>
    match g.unknownIn rule with
    | some symbol => some (i, symbol)
    | none => g.unknownFrom (i + 1) rest

def validate (g : Grammar) : Except GrammarError Unit :=
  if g.rules.isEmpty then .error .empty
  else match g.unknownFrom 0 g.rules.toList with
    | some (production, symbol) => .error (.unknownSymbol production symbol)
    | none => .ok ()

end Grammar

end Stencil
