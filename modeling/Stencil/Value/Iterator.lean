import Stencil.Value.Basic

namespace Stencil

-- What an iterator asks about an item. A function of the template runs in a frame of its own
-- with its output discarded, and its errors keep their place; a function of the host is called as
-- it is.
inductive Method where
  | script (callee : Value) (pos : Position)
  | native (ref : Nat)

-- Iterators are used once. The cursor is the number of the last item given out and starts at -1.
-- A host object gives its iterator as one of these. Hosts can also write iterators with steps of
-- their own, which are not among them.
inductive Iterator where
  | items (rest : List Value) (cursor : Int64)
  | range (next : Option Int64) (last : Int64) (cursor : Int64)
  -- Drives the iterator in the cell.
  | shared (ref : Nat)
  -- Passes on what the method accepts, one item ahead.
  | filtered (source : Iterator) (test : Method) (pending : Option Value) (cursor : Int64)
  -- Passes on what the method makes of each item.
  | mapped (source : Iterator) (change : Method)

namespace Iterator

def ofList (items : List Value) : Iterator := .items items (-1)

def ofRange (first last : Int64) : Iterator := .range (some first) last (-1)

def filter (source : Iterator) (test : Method) : Iterator := .filtered source test none (-1)

def map (source : Iterator) (change : Method) : Iterator := .mapped source change

-- The cursor stays at the largest integer once it is there.
def advance (cursor : Int64) : Int64 := if cursor = Int64.maxValue then cursor else cursor + 1

-- The next larger integer, unless the largest one is reached.
def succ? (n : Int64) : Option Int64 := if n = Int64.maxValue then none else some (n + 1)

-- The next smaller integer, unless the smallest one is reached.
def pred? (n : Int64) : Option Int64 := if n = Int64.minValue then none else some (n - 1)

-- What follows an integer on the way to `last`.
def stepToward (current last : Int64) : Option Int64 :=
  if current < last then succ? current
  else if last < current then pred? current
  else none

end Iterator

end Stencil
