import Stencil.Tree.Basic

namespace Stencil

-- A value of a running template. Lists, maps, iterators and host objects are shared: a value only
-- names the cell that holds them.
inductive Value where
  | null
  | bool (b : Bool)
  | int (n : Int64)
  | float (x : Float)
  | str (s : String)
  | bytes (bs : List UInt8)
  | list (ref : Nat)
  | map (ref : Nat)
  | range (first last : Int64)
  -- Where a function was written tells it from all others: the template and the place in it.
  | function (origin : Nat) (decl : FunctionDecl)
  | native (ref : Nat) (name : String)
  | iter (ref : Nat)
  | host (ref : Nat)

instance : Inhabited Value := ⟨.null⟩

namespace Value

def ofLiteral : Literal → Value
  | .null => .null
  | .bool b => .bool b
  | .int n => .int n
  | .float x => .float x
  | .str s => .str s
  | .range first last => .range first last

-- The literal that stands for the value, if there is one.
def literal? : Value → Option Literal
  | .null => some .null
  | .bool b => some (.bool b)
  | .int n => some (.int n)
  | .float x => some (.float x)
  | .str s => some (.str s)
  | .range first last => some (.range first last)
  | _ => none

theorem literal?_ofLiteral (l : Literal) : literal? (ofLiteral l) = some l := by cases l <;> rfl

theorem eq_ofLiteral_of_literal? {v : Value} {l : Literal} (h : v.literal? = some l) :
    v = ofLiteral l := by
  cases v <;> simp_all [literal?] <;> subst h <;> rfl

-- Values that no later step can change.
def isImmutable : Value → Bool
  | .null | .bool _ | .int _ | .float _ | .str _ | .bytes _ | .range .. => true
  | _ => false

def isNull : Value → Bool
  | .null => true
  | _ => false

def int? : Value → Option Int64
  | .int n => some n
  | _ => none

def str? : Value → Option String
  | .str s => some s
  | _ => none

end Value

end Stencil
