namespace Stencil

namespace Table

-- A packed row lists symbols and their values in turn, the symbols ascending, and closes with the
-- tag -1 and the value of all symbols it does not list.
abbrev Row := Array Int16

def packRow (pairs : List (Int16 × Int16)) (default : Int16) : Row :=
  (pairs.flatMap (fun (symbol, value) => [symbol, value]) ++ [-1, default]).toArray

-- Short rows are read from the front.
def scanRow (symbol missing : Int16) : List Int16 → Int16
  | tag :: value :: rest => if tag = symbol ∨ tag = -1 then value else scanRow symbol missing rest
  | _ => missing

-- The value paired with the symbol among the pairs `low` up to `high`, by halving.
def searchRow (row : Row) (symbol : Int16) : Nat → Nat → Nat → Option Int16
  | 0, _, _ => none
  | fuel + 1, low, high =>
    if low < high then
      let probe := low + (high - low) / 2
      match row[2 * probe]?, row[2 * probe + 1]? with
      | some tag, some value =>
        if symbol = tag then some value
        else if tag < symbol then searchRow row symbol fuel (probe + 1) high
        else searchRow row symbol fuel low probe
      | _, _ => none
    else none

-- Rows of this length or more are searched by halving. The closing pair is no part of the run
-- that is searched.
def searchLimit : Nat := 20

def lookupRow (row : Row) (symbol missing : Int16) : Int16 :=
  if row.size < searchLimit then scanRow symbol missing row.toList
  else (searchRow row symbol row.size 0 (row.size / 2 - 1)).getD (row.back?.getD missing)

end Table

open Table

-- The tables that drive a parser. An action is a state plus one for a shift, the negated number
-- of a production plus one for a reduction, and zero for none. A reduce row gives the state
-- after a non-terminal, -1 for none. A production row is the number of its left side and the
-- length of its right side.
structure Tables where
  action : Array Row
  reduce : Array Row
  production : Array Row
  deriving Repr, DecidableEq

namespace Tables

def empty : Tables := ⟨#[], #[], #[]⟩

def states (t : Tables) : Nat := t.action.size

def productions (t : Tables) : Nat := t.production.size

-- A symbol number that fits a row.
def symbol16? (n : Nat) : Option Int16 :=
  if n ≤ Int16.maxValue.toInt then some (Int16.ofInt n) else none

def actionAt (t : Tables) (state symbol : Nat) : Int16 :=
  match t.action[state]?, symbol16? symbol with
  | some row, some symbol => lookupRow row symbol 0
  | _, _ => 0

def gotoAt (t : Tables) (state symbol : Nat) : Int16 :=
  match t.reduce[state]?, symbol16? symbol with
  | some row, some symbol => lookupRow row symbol (-1)
  | _, _ => -1

-- The left side and the length of a production.
def productionAt (t : Tables) (production : Nat) : Option (Nat × Nat) :=
  match (t.production[production]?).map Array.toList with
  | some [left, length] =>
    if 0 ≤ left ∧ 0 ≤ length then some (left.toInt.toNat, length.toInt.toNat) else none
  | _ => none

end Tables

end Stencil
