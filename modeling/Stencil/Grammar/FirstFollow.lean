import Stencil.Grammar.Ascending
import Stencil.Grammar.Basic

namespace Stencil

-- For every non-terminal, whether it derives the empty string and which terminals its strings
-- can start with.
structure FirstSets where
  nullable : Array Bool
  first : Array (List Nat)
  deriving Repr, DecidableEq

namespace FirstSets

def none (nonterminals : Nat) : FirstSets :=
  ⟨Array.replicate nonterminals false, Array.replicate nonterminals []⟩

def isNullable (f : FirstSets) (n : Nat) : Bool := f.nullable.getD n false

def firstOf (f : FirstSets) (n : Nat) : List Nat := f.first.getD n []

-- The same for a string of symbols.
def ofString (f : FirstSets) : List Symbol → List Nat × Bool
  | [] => ([], true)
  | .terminal t :: _ => ([t], false)
  | .nonterminal n :: rest =>
    if f.isNullable n then
      let (first, nullable) := f.ofString rest
      (Ascending.union (f.firstOf n) first, nullable)
    else (f.firstOf n, false)

-- What the left side of a rule gains from its right side.
def absorb (f : FirstSets) (rule : Rule) : FirstSets :=
  let (first, nullable) := f.ofString rule.right
  { nullable := f.nullable.modify rule.left (· || nullable)
    first := f.first.modify rule.left (Ascending.union · first) }

end FirstSets

namespace Grammar

-- The least sets closed under every rule. Each round but the last adds a terminal to a set or
-- makes a non-terminal nullable, which bounds their number.
def firstSets (g : Grammar) : FirstSets :=
  settle (fun f => g.rules.foldl FirstSets.absorb f) (g.nonterminals * (g.terminals + 1) + 1)
    (.none g.nonterminals)

end Grammar

-- For every non-terminal, the terminals that can stand right after it.
abbrev FollowSets := Array (List Nat)

namespace FollowSets

-- What the non-terminals of a right side gain from what stands after them. Behind an end that
-- can vanish comes all that follows the left side.
def absorb (f : FirstSets) (left : Nat) : FollowSets → List Symbol → FollowSets
  | sets, [] => sets
  | sets, .terminal _ :: rest => absorb f left sets rest
  | sets, .nonterminal n :: rest =>
    let (first, nullable) := f.ofString rest
    let gained := if nullable then Ascending.union first (sets.getD left []) else first
    absorb f left (sets.modify n (Ascending.union · gained)) rest

end FollowSets

namespace Grammar

-- The least sets closed under every rule that hold the end of input behind the start symbol.
def followSets (g : Grammar) (f : FirstSets) : FollowSets :=
  let start := match g.rules[0]? with
    | some rule => (Array.replicate g.nonterminals []).modify rule.left (Ascending.insert g.eof)
    | none => Array.replicate g.nonterminals []
  settle (fun sets =>
      g.rules.foldl (fun sets rule => FollowSets.absorb f rule.left sets rule.right) sets)
    (g.nonterminals * (g.terminals + 1) + 1) start

end Grammar

end Stencil
