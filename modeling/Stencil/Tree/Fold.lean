import Stencil.Value.Operator

namespace Stencil

-- Literals hold no references, so operators work on them without a heap.
def foldBinary (op : BinaryOp) (a b : Literal) : Option Literal :=
  ((Value.binary .empty op (.ofLiteral a) (.ofLiteral b)).toOption).bind Value.literal?

def foldUnary (op : UnaryOp) (a : Literal) : Option Literal :=
  ((Value.unary .empty op (.ofLiteral a)).toOption).bind Value.literal?

def Literal.isTruthy (a : Literal) : Bool := (Value.ofLiteral a).isTruthy .empty

namespace Expr

-- Replaces an operator on literals by its value. One that fails is left in place, so that it
-- fails where it stands when it is run.
def optimize : Expr → Expr
  | .binary op left right pos =>
    match left.constant?, right.constant? with
    | some a, some b => ((foldBinary op a b).map (.direct · pos)).getD (.binary op left right pos)
    | _, _ => .binary op left right pos
  | .unary op operand pos =>
    match operand.constant? with
    | some a => ((foldUnary op a).map (.direct · pos)).getD (.unary op operand pos)
    | none => .unary op operand pos
  | .and left right pos =>
    match left.constant?.map Literal.isTruthy, right.constant? with
    | some false, _ => .direct (.bool false) pos
    | some true, some b => .direct (.bool b.isTruthy) pos
    | _, _ => .and left right pos
  | .or left right pos =>
    match left.constant?.map Literal.isTruthy, right.constant? with
    | some true, _ => .direct (.bool true) pos
    | some false, some b => .direct (.bool b.isTruthy) pos
    | _, _ => .or left right pos
  | e => e

end Expr

-- A condition that is a literal leaves only the branch that runs.
def Stmt.branch (test : Expr) (yes no : List Stmt) (pos : Position) : Stmt :=
  match test.constant?.map Literal.isTruthy with
  | some true => .block yes
  | some false => .block no
  | none => .cond test yes no pos

end Stencil
