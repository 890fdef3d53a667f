import Stencil.Literal
import Stencil.Source.Position

namespace Stencil

inductive BinaryOp where
  | plus | minus | times | divide | remainder
  | bitAnd | bitOr | bitXor | shiftLeft | shiftRight | shiftRightZero
  | equal | notEqual | less | lessEqual | greater | greaterEqual
  | range
  deriving Repr, DecidableEq

namespace BinaryOp

def symbol : BinaryOp → String
  | plus => "+"
  | minus => "-"
  | times => "*"
  | divide => "/"
  | remainder => "%"
  | bitAnd => "&"
  | bitOr => "|"
  | bitXor => "^"
  | shiftLeft => "<<"
  | shiftRight => ">>"
  | shiftRightZero => ">>>"
  | equal => "=="
  | notEqual => "!="
  | less => "<"
  | lessEqual => "<="
  | greater => ">"
  | greaterEqual => ">="
  | range => ".."

end BinaryOp

inductive UnaryOp where
  | negative | not | bitNot
  deriving Repr, DecidableEq

namespace UnaryOp

def symbol : UnaryOp → String
  | negative => "-"
  | not => "!"
  | bitNot => "~"

end UnaryOp

-- Variables are numbered slots of the running frame. Every node knows where it stands.
mutual

inductive Expr where
  | direct (value : Literal) (pos : Position)
  | var (slot : Nat) (pos : Position)
  | binary (op : BinaryOp) (left right : Expr) (pos : Position)
  | unary (op : UnaryOp) (operand : Expr) (pos : Position)
  -- The right side is evaluated only when the left one does not decide.
  | and (left right : Expr) (pos : Position)
  | or (left right : Expr) (pos : Position)
  | property (target : Expr) (key : String) (pos : Position)
  | index (target key : Expr) (pos : Position)
  | call (callee : Expr) (args : List Expr) (pos : Position)
  -- The arguments of a function are the first slots of a frame of its own.
  | function (arity frameSize : Nat) (body : List Stmt) (pos : Position)
  | list (items : List Expr) (pos : Position)

inductive Stmt where
  | text (text : String) (pos : Position)
  | placeholder (expr : Expr) (pos : Position)
  | expr (expr : Expr)
  | assign (slot : Nat) (value : Expr) (pos : Position)
  | setProperty (target : Expr) (key : String) (value : Expr) (pos : Position)
  | setIndex (target key value : Expr) (pos : Position)
  | block (body : List Stmt)
  | cond (test : Expr) (yes no : List Stmt) (pos : Position)
  -- The label is zero for a loop without one. The iterator has a slot of its own.
  | forIn (label iterSlot itemSlot : Nat) (collection : Expr) (filter : Option Expr)
      (body : List Stmt) (otherwise : Option (List Stmt)) (pos : Position)
  | ret (value : Option Expr) (pos : Position)
  -- Without a label the innermost loop is meant.
  | brk (label : Option Nat) (pos : Position)
  | cont (label : Option Nat) (pos : Position)

end

namespace Expr

def pos : Expr → Position
  | direct _ pos | var _ pos | binary _ _ _ pos | unary _ _ pos | and _ _ pos | or _ _ pos
  | property _ _ pos | index _ _ pos | call _ _ pos | function _ _ _ pos | list _ pos => pos

-- The value of a literal.
def constant? : Expr → Option Literal
  | direct value _ => some value
  | _ => none

end Expr

-- A function as a value.
structure FunctionDecl where
  arity : Nat
  frameSize : Nat
  body : List Stmt
  pos : Position

end Stencil
