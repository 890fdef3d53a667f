import Stencil.Run.Frame
import Stencil.Value.Operator

namespace Stencil

namespace Run

def isTruthy (v : Value) : RunM Bool := return v.isTruthy (← RunM.heap)

mutual

def evalExpr (k : Linkage) : Expr → RunM Value
  | .direct value _ => return .ofLiteral value
  | .var slot _ => RunM.getSlot slot
  | .binary op left right pos => do
    let a ← evalExpr k left
    let b ← evalExpr k right
    RunM.ofExcept pos (Value.binary (← RunM.heap) op a b)
  | .unary op operand pos => do
    let a ← evalExpr k operand
    RunM.ofExcept pos (Value.unary (← RunM.heap) op a)
  | .and left right _ => do
    if ← isTruthy (← evalExpr k left) then
      return .bool (← isTruthy (← evalExpr k right))
    else return .bool false
  | .or left right _ => do
    if ← isTruthy (← evalExpr k left) then return .bool true
    else return .bool (← isTruthy (← evalExpr k right))
  | .property target key pos => do
    let target ← evalExpr k target
    RunM.located pos (getProperty k target (.str key))
  | .index target key pos => do
    let target ← evalExpr k target
    let key ← evalExpr k key
    RunM.located pos (getProperty k target key)
  | .call callee args pos => do
    let callee ← evalExpr k callee
    let args ← evalExprs k args
    RunM.onWorld (k.call callee args pos)
  | .function arity frameSize body pos => do
    return .function (← get).frame.origin ⟨arity, frameSize, body, pos⟩
  | .list items _ => do
    let items ← evalExprs k items
    RunM.onWorld (WorldM.newList items)

def evalExprs (k : Linkage) : List Expr → RunM (List Value)
  | [] => return []
  | e :: rest => do
    let v ← evalExpr k e
    return v :: (← evalExprs k rest)

end

end Run

end Stencil
