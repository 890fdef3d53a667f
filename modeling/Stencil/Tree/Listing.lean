import Stencil.Number.Layout
import Stencil.Text.Listing
import Stencil.Text.Quoted
import Stencil.Tree.Basic

namespace Stencil

open Text

namespace Position

def listing (p : Position) : String :=
  record "Position" [("line", toString p.line), ("column", toString p.column)]

end Position

namespace Literal

def listing : Literal → String
  | null => "Null"
  | bool b => wrapped "Bool" (toString b)
  | int n => wrapped "Int" (toString n.toInt)
  | float x => wrapped "Float" (Number.listed.write x)
  | str s => wrapped "Str" (quote s)
  | range first last => wrapped "Range" (toString first.toInt ++ ".." ++ toString last.toInt)

end Literal

namespace BinaryOp

def listing : BinaryOp → String
  | plus => "Plus"
  | minus => "Minus"
  | times => "Mult"
  | divide => "Div"
  | remainder => "Mod"
  | bitAnd => "BitAnd"
  | bitOr => "BitOr"
  | bitXor => "BitXor"
  | shiftLeft => "Lshift"
  | shiftRight => "Rshift"
  | shiftRightZero => "Urshift"
  | equal => "Equal"
  | notEqual => "NotEqual"
  | less => "Less"
  | lessEqual => "LessEqual"
  | greater => "Greater"
  | greaterEqual => "GreaterEqual"
  | range => "Range"

end BinaryOp

namespace UnaryOp

def listing : UnaryOp → String
  | negative => "Negative"
  | not => "Not"
  | bitNot => "BitNot"

end UnaryOp

mutual

def Expr.listing : Expr → String
  | .direct value pos => record "Direct" [("value", value.listing), ("pos", pos.listing)]
  | .var slot pos => record "Var" [("slot", toString slot), ("pos", pos.listing)]
  | .binary op left right pos =>
    record "Binary" [("op", op.listing), ("left", left.listing), ("right", right.listing),
      ("pos", pos.listing)]
  | .unary op operand pos =>
    record "Unary" [("op", op.listing), ("operand", operand.listing), ("pos", pos.listing)]
  | .and left right pos =>
    record "And" [("left", left.listing), ("right", right.listing), ("pos", pos.listing)]
  | .or left right pos =>
    record "Or" [("left", left.listing), ("right", right.listing), ("pos", pos.listing)]
  | .property target key pos =>
    record "Property" [("target", target.listing), ("key", (Literal.str key).listing),
      ("pos", pos.listing)]
  | .index target key pos =>
    record "Index" [("target", target.listing), ("index", key.listing), ("pos", pos.listing)]
  | .call callee args pos =>
    record "Call" [("callee", callee.listing), ("args", bracketed (exprListings args)),
      ("pos", pos.listing)]
  | .function arity frameSize body pos =>
    wrapped "Function" (record "FunctionDecl" [("arity", toString arity),
      ("frame_size", toString frameSize), ("body", bracketed (stmtListings body)),
      ("pos", pos.listing)])
  | .list items pos =>
    record "List" [("items", bracketed (exprListings items)), ("pos", pos.listing)]

def exprListings : List Expr → List String
  | [] => []
  | e :: rest => e.listing :: exprListings rest

def Stmt.listing : Stmt → String
  | .text text pos => record "Text" [("text", quote text), ("pos", pos.listing)]
  | .placeholder expr pos =>
    record "Placeholder" [("expr", expr.listing), ("pos", pos.listing)]
  | .expr expr => wrapped "Expr" expr.listing
  | .assign slot value pos =>
    record "Assign" [("slot", toString slot), ("value", value.listing), ("pos", pos.listing)]
  | .setProperty target key value pos =>
    record "SetProperty" [("target", target.listing), ("key", (Literal.str key).listing),
      ("value", value.listing), ("pos", pos.listing)]
  | .setIndex target key value pos =>
    record "SetIndex" [("target", target.listing), ("index", key.listing),
      ("value", value.listing), ("pos", pos.listing)]
  | .block body => wrapped "Block" (bracketed (stmtListings body))
  | .cond test yes no pos =>
    record "If" [("cond", test.listing), ("then", bracketed (stmtListings yes)),
      ("otherwise", bracketed (stmtListings no)), ("pos", pos.listing)]
  | .forIn label iterSlot itemSlot collection filter body otherwise pos =>
    let filter := match filter with
      | some e => optional (some e.listing)
      | none => optional none
    let otherwise := match otherwise with
      | some stmts => optional (some (bracketed (stmtListings stmts)))
      | none => optional none
    wrapped "ForIn" (record "ForIn" [("label", toString label),
      ("iter_slot", toString iterSlot), ("item_slot", toString itemSlot),
      ("collection", collection.listing), ("filter", filter),
      ("body", bracketed (stmtListings body)), ("else_body", otherwise), ("pos", pos.listing)])
  | .ret (some value) pos =>
    record "Return" [("value", optional (some value.listing)), ("pos", pos.listing)]
  | .ret none pos => record "Return" [("value", optional none), ("pos", pos.listing)]
  | .brk label pos =>
    record "Break" [("label", optional (label.map toString)), ("pos", pos.listing)]
  | .cont label pos =>
    record "Continue" [("label", optional (label.map toString)), ("pos", pos.listing)]

def stmtListings : List Stmt → List String
  | [] => []
  | s :: rest => s.listing :: stmtListings rest

end

end Stencil
