import Stencil.Grammar.Automaton
import Stencil.Grammar.FirstFollow
import Stencil.Table.Basic

namespace Stencil

open Table

inductive Action where
  | shift (state : Nat)
  | reduce (production : Nat)
  deriving Repr, DecidableEq

-- Two actions for one state and terminal, of which only one is kept.
structure Conflict where
  state : Nat
  terminal : Nat
  kept : Action
  discarded : Action
  deriving Repr, DecidableEq

namespace Conflict

def isShiftReduce (c : Conflict) : Bool :=
  match c.kept, c.discarded with
  | .shift _, .reduce _ | .reduce _, .shift _ => true
  | _, _ => false

end Conflict

namespace Action

-- Of two actions the first is kept and the second discarded: a shift wins over a reduction, and
-- the production with the lower number over the other.
def resolve (existing : Action) (rule : Nat) : Action × Action :=
  match existing with
  | .shift state => (.shift state, .reduce rule)
  | .reduce other =>
    if other ≤ rule then (.reduce other, .reduce rule) else (.reduce rule, .reduce other)

end Action

-- The actions of one state by ascending terminal.
abbrev ActionRow := List (Nat × Action)

namespace ActionRow

-- Sets the action of a terminal.
def put (t : Nat) (action : Action) : ActionRow → ActionRow
  | [] => [(t, action)]
  | (u, other) :: rest =>
    if t < u then (t, action) :: (u, other) :: rest
    else if t = u then (t, action) :: rest
    else (u, other) :: put t action rest

-- Adds a reduction for one terminal, noting a conflict if there is an action already.
def propose (state rule : Nat) (acc : ActionRow × List Conflict) (t : Nat) :
    ActionRow × List Conflict :=
  match acc.1.lookup t with
  | none => (put t (.reduce rule) acc.1, acc.2)
  | some existing =>
    let (kept, discarded) := existing.resolve rule
    (put t kept acc.1, acc.2 ++ [⟨state, t, kept, discarded⟩])

-- The shifts of a state, then its reductions by ascending rule and terminal.
def ofState (g : Grammar) (follow : FollowSets) (state : Nat) (info : StateInfo) :
    ActionRow × List Conflict :=
  let shifts := info.edges.filterMap fun (symbol, target) =>
    match symbol with
    | .terminal t => some (t, .shift target)
    | .nonterminal _ => none
  info.completed.foldl (fun acc rule =>
    let left := ((g.rules[rule]?).map Rule.left).getD 0
    (follow.getD left []).foldl (propose state rule) acc) (shifts, [])

end ActionRow

namespace Grammar

-- Rows hold integers of sixteen bits.
def limit : Nat := 0x7fff

def encodeNat (n : Nat) : Except GrammarError Int16 :=
  if n ≤ limit then .ok (Int16.ofInt n) else .error (.tooLarge limit)

def encodeAction : Action → Except GrammarError Int16
  | .shift state => encodeNat (state + 1)
  | .reduce production => (encodeNat (production + 1)).map fun v => -v

def actionPairs (row : ActionRow) : Except GrammarError (List (Int16 × Int16)) :=
  row.mapM fun (t, action) => do
    let value ← encodeAction action
    return (← encodeNat t, value)

def gotoPairs (info : StateInfo) : Except GrammarError (List (Int16 × Int16)) :=
  (info.edges.filterMap fun (symbol, target) =>
    match symbol with
    | .terminal _ => none
    | .nonterminal n => some (n, target)).mapM fun (n, target) => do
      let value ← encodeNat target
      return (← encodeNat n, value)

def productionRow (rule : Rule) : Except GrammarError Row := do
  return #[← encodeNat rule.left, ← encodeNat rule.right.length]

-- The rows of the states from number `state` on, and the conflicts met in them.
def stateRows (g : Grammar) (follow : FollowSets) :
    Nat → List StateInfo → Except GrammarError (List (Row × Row) × List Conflict)
  | _, [] => .ok ([], [])
  | state, info :: rest => do
    let (row, conflicts) := ActionRow.ofState g follow state info
    let action := packRow (← actionPairs row) 0
    let reduce := packRow (← gotoPairs info) (-1)
    let (rows, more) ← g.stateRows follow (state + 1) rest
    return ((action, reduce) :: rows, conflicts ++ more)

-- The tables of a grammar with one terminal of look-ahead, and the conflicts that were settled on
-- the way.
def compile (g : Grammar) : Except GrammarError (Tables × List Conflict) := do
  g.validate
  let follow := g.followSets g.firstSets
  let (rows, conflicts) ← g.stateRows follow 0 g.automaton.infos.toList
  let productions ← g.rules.toList.mapM productionRow
  let tables : Tables :=
    ⟨(rows.map Prod.fst).toArray, (rows.map Prod.snd).toArray, productions.toArray⟩
  return (tables, conflicts)

-- The tables alone, empty ones if there are none.
def tables (g : Grammar) : Tables :=
  match g.compile with
  | .ok (tables, _) => tables
  | .error _ => .empty

end Grammar

end Stencil
