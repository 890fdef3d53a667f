import Stencil.Proofs.Named.Tree
import Stencil.Template

namespace Stencil.Named

-- The part of a `for` loop that is known before its body.
structure ForHead (σ : Type) where
  label : Option String
  number : σ
  item : String
  iterSlot : σ
  itemSlot : σ
  collection : Expr σ
  filter : Option (Expr σ)
  pos : Position

-- The meaning of a grammar symbol.
inductive Sem (σ : Type) where
  | none
  | identifier (name : String)
  | literal (value : Literal)
  | text (text : String)
  | expr (e : Expr σ)
  | exprs (es : List (Expr σ))
  | stmt (s : Stmt σ)
  | stmts (ss : List (Stmt σ))
  | params (names : List String)
  | forHead (head : ForHead σ)
  | forLoop (head : ForHead σ) (body : List (Stmt σ))
  | functionHead (params : List String)

section

variable {σ : Type}

def ForHead.names (head : ForHead σ) : ForHead Unit :=
  ⟨head.label, (), head.item, (), (), head.collection.names, Expr.namesOption head.filter, head.pos⟩

def ForHead.stmt (head : ForHead σ) (body : List (Stmt σ)) (otherwise : Option (List (Stmt σ))) :
    Stmt σ :=
  .forIn head.label head.number head.item head.iterSlot head.itemSlot head.collection head.filter
    body otherwise head.pos

def Sem.names : Sem σ → Sem Unit
  | .none => .none
  | .identifier name => .identifier name
  | .literal value => .literal value
  | .text s => .text s
  | .expr e => .expr e.names
  | .exprs es => .exprs (Expr.namesAll es)
  | .stmt s => .stmt s.names
  | .stmts ss => .stmts (Stmt.namesAll ss)
  | .params names => .params names
  | .forHead head => .forHead head.names
  | .forLoop head body => .forLoop head.names (Stmt.namesAll body)
  | .functionHead names => .functionHead names

def Sem.ofLexeme : Lexeme → Sem σ
  | .none => .none
  | .identifier name => .identifier name
  | .literal value => .literal value
  | .text s => .text s

end

def ForHead.code (head : ForHead Nat) : Stencil.ForHead :=
  ⟨head.number, head.iterSlot, head.itemSlot, head.collection.code, Expr.codeOption head.filter,
    head.pos⟩

def Sem.code : Sem Nat → Stencil.Sem
  | .none => .none
  | .identifier name => .identifier name
  | .literal value => .literal value
  | .text s => .text s
  | .expr e => .expr e.code
  | .exprs es => .exprs (Expr.codeAll es)
  | .stmt s => .stmt s.code
  | .stmts ss => .stmts (Stmt.codeAll ss)
  | .params names => .params names
  | .forHead head => .forHead head.code
  | .forLoop head body => .forLoop head.code (Stmt.codeAll body)
  | .functionHead names => .functionHead names.length

theorem Sem.names_ofLexeme (lexeme : Lexeme) :
    (ofLexeme lexeme : Sem Nat).names = ofLexeme lexeme := by cases lexeme <;> rfl

theorem Sem.code_ofLexeme (lexeme : Lexeme) :
    (ofLexeme lexeme : Sem Nat).code = .ofLexeme lexeme := by cases lexeme <;> rfl

-- The tree of a source without any resolution: only the grammar and the tokens have a say in it.
namespace Parse

abbrev Handle := Parser.Handle (Sem Unit)

def takeAs (select : Sem Unit → Option α) (h : Handle) (i : Nat) : Except ParseError α :=
  match (h.value? i).bind select with
  | some a => .ok a
  | none => .error ⟨h.posAt i, .corruptTables ("no meaning at handle index " ++ toString i)⟩

def takeExpr : Handle → Nat → Except ParseError (Expr Unit) :=
  takeAs fun | .expr e => some e | _ => none

def takeExprs : Handle → Nat → Except ParseError (List (Expr Unit)) :=
  takeAs fun | .exprs es => some es | _ => none

def takeIdent : Handle → Nat → Except ParseError String :=
  takeAs fun | .identifier name => some name | _ => none

def takeLiteral : Handle → Nat → Except ParseError Literal :=
  takeAs fun | .literal value => some value | _ => none

def takeText : Handle → Nat → Except ParseError String :=
  takeAs fun | .text s => some s | _ => none

def takeStmt : Handle → Nat → Except ParseError (Stmt Unit) :=
  takeAs fun | .stmt s => some s | _ => none

-- A statement can come to nothing.
def takeStmt? : Handle → Nat → Except ParseError (Option (Stmt Unit)) :=
  takeAs fun | .stmt s => some (some s) | .none => some none | _ => none

def takeStmts : Handle → Nat → Except ParseError (List (Stmt Unit)) :=
  takeAs fun | .stmts ss => some ss | _ => none

def takeParams : Handle → Nat → Except ParseError (List String) :=
  takeAs fun | .params names => some names | _ => none

def takeForHead : Handle → Nat → Except ParseError (ForHead Unit) :=
  takeAs fun | .forHead head => some head | _ => none

def takeForLoop : Handle → Nat → Except ParseError (ForHead Unit × List (Stmt Unit)) :=
  takeAs fun | .forLoop head body => some (head, body) | _ => none

def takeFunctionHead : Handle → Nat → Except ParseError (List String) :=
  takeAs fun | .functionHead params => some params | _ => none

def binary (op : BinaryOp) (h : Handle) : Except ParseError (Sem Unit) :=
  return .expr (.binary op (← takeExpr h 0) (← takeExpr h 2) (h.posAt 1))

def unary (op : UnaryOp) (h : Handle) : Except ParseError (Sem Unit) :=
  return .expr (.unary op (← takeExpr h 1) (h.posAt 0))

def literal (value : Literal) (h : Handle) : Except ParseError (Sem Unit) :=
  return .expr (.direct value (h.posAt 0))

def forHead (h : Handle) (labelAt : Option Nat) (itemAt : Nat) (filterAt : Option Nat) :
    Except ParseError (Sem Unit) := do
  let label ← labelAt.mapM (takeIdent h)
  let item ← takeIdent h itemAt
  let collection ← takeExpr h (itemAt + 2)
  let filter ← filterAt.mapM (takeExpr h)
  return .forHead ⟨label, (), item, (), (), collection, filter, h.posAt 0⟩

-- What a production makes of the meanings of its right side.
def action (p : Production) (h : Handle) : Except ParseError (Sem Unit) := do
  match p with
  | .start => return .stmts (← takeStmts h 0)
  | .noStatements => return .stmts []
  | .moreStatements =>
    let stmts ← takeStmts h 0
    return .stmts (stmts ++ (← takeStmt? h 1).toList)
  | .text => return .stmt (.text (← takeText h 0) (h.posAt 0))
  | .placeholder => return .stmt (.placeholder (← takeExpr h 1) (h.posAt 0))
  | .emptyStatement => return .none
  | .expressionStatement => return .stmt (.expr (← takeExpr h 0))
  | .declare => return .stmt (.declare (← takeIdent h 1) () none (h.posAt 1))
  | .declareAssign =>
    return .stmt (.declare (← takeIdent h 1) () (some (← takeExpr h 3)) (h.posAt 1))
  | .assign => return .stmt (.assign (← takeIdent h 0) () (← takeExpr h 2) (h.posAt 0))
  | .setProperty =>
    return .stmt (.setProperty (← takeExpr h 0) (← takeIdent h 2) (← takeExpr h 4) (h.posAt 1))
  | .setIndex =>
    return .stmt (.setIndex (← takeExpr h 0) (← takeExpr h 2) (← takeExpr h 5) (h.posAt 1))
  | .blockStatement => return .stmt (.block (← takeStmts h 0))
  | .template | .ifStatement | .forStatement | .expression | .orOperand | .andOperand
  | .bitOrOperand | .bitXorOperand | .bitAndOperand | .equalityOperand | .relationOperand
  | .shiftOperand | .rangeOperand | .additiveOperand | .productOperand | .unaryOperand
  | .postfixOperand | .functionOperand => return (h.value? 0).getD .none
  | .returnNothing => return .stmt (.ret none (h.posAt 0))
  | .returnValue => return .stmt (.ret (some (← takeExpr h 1)) (h.posAt 0))
  | .breakInnermost => return .stmt (.brk none (h.posAt 0))
  | .breakLabel => return .stmt (.brk (some (← takeIdent h 1, ())) (h.posAt 0))
  | .continueInnermost => return .stmt (.cont none (h.posAt 0))
  | .continueLabel => return .stmt (.cont (some (← takeIdent h 1, ())) (h.posAt 0))
  | .blockOpen => return .none
  | .block => return .stmts (← takeStmts h 1)
  | .ifThen => return .stmt (.ifThen (← takeExpr h 2) (← takeStmts h 4) (h.posAt 0))
  | .ifThenElse =>
    return .stmt (.ifThenElse (← takeExpr h 2) (← takeStmts h 4) (← takeStmts h 6) (h.posAt 0))
  | .ifThenElseIf =>
    return .stmt (.ifThenElseIf (← takeExpr h 2) (← takeStmts h 4) (← takeStmt h 6) (h.posAt 0))
  | .forHead => forHead h none 2 none
  | .forHeadWhere => forHead h none 2 (some 6)
  | .forHeadLabel => forHead h (some 0) 4 none
  | .forHeadLabelWhere => forHead h (some 0) 4 (some 8)
  | .forLoop => return .forLoop (← takeForHead h 0) (← takeStmts h 1)
  | .forIn =>
    let (head, body) ← takeForLoop h 0
    return .stmt (head.stmt body none)
  | .forInElse =>
    let (head, body) ← takeForLoop h 0
    return .stmt (head.stmt body (some (← takeStmts h 2)))
  | .or => return .expr (.or (← takeExpr h 0) (← takeExpr h 2) (h.posAt 1))
  | .and => return .expr (.and (← takeExpr h 0) (← takeExpr h 2) (h.posAt 1))
  | .bitOr => binary .bitOr h
  | .bitXor => binary .bitXor h
  | .bitAnd => binary .bitAnd h
  | .equal => binary .equal h
  | .notEqual => binary .notEqual h
  | .less => binary .less h
  | .lessEqual => binary .lessEqual h
  | .greater => binary .greater h
  | .greaterEqual => binary .greaterEqual h
  | .shiftLeft => binary .shiftLeft h
  | .shiftRight => binary .shiftRight h
  | .shiftRightZero => binary .shiftRightZero h
  | .range => binary .range h
  | .plus => binary .plus h
  | .minus => binary .minus h
  | .times => binary .times h
  | .divide => binary .divide h
  | .remainder => binary .remainder h
  | .negative => unary .negative h
  | .not => unary .not h
  | .bitNot => unary .bitNot h
  | .property => return .expr (.property (← takeExpr h 0) (← takeIdent h 2) (h.posAt 1))
  | .index => return .expr (.index (← takeExpr h 0) (← takeExpr h 2) (h.posAt 1))
  | .callNothing => return .expr (.call (← takeExpr h 0) [] (h.posAt 1))
  | .call => return .expr (.call (← takeExpr h 0) (← takeExprs h 2) (h.posAt 1))
  | .firstArgument => return .exprs [← takeExpr h 0]
  | .moreArguments => return .exprs ((← takeExprs h 0) ++ [← takeExpr h 2])
  | .readVariable => return .expr (.var (← takeIdent h 0) () (h.posAt 0))
  | .integer | .float | .string => literal (← takeLiteral h 0) h
  | .literalTrue => literal (.bool true) h
  | .literalFalse => literal (.bool false) h
  | .literalNull => literal .null h
  | .parenthesised => return (h.value? 1).getD .none
  | .emptyList => return .expr (.list [] (h.posAt 0))
  | .list => return .expr (.list (← takeExprs h 1) (h.posAt 0))
  | .loopStatus =>
    let property ← takeIdent h 2
    if property ≠ "iter" then .error ⟨h.posAt 2, .invalidLoopStatus property⟩
    else return .expr (.iter () (h.posAt 0))
  | .functionHeadNothing => return .functionHead []
  | .functionHead => return .functionHead (← takeParams h 2)
  | .firstParameter => return .params [← takeIdent h 0]
  | .moreParameters => return .params ((← takeParams h 0) ++ [← takeIdent h 2])
  | .function =>
    return .expr (.function (← takeFunctionHead h 0) () (← takeStmts h 1) (h.posAt 0))

-- The start production ends the parse.
def reduce (number : Nat) (h : Handle) (_ : Unit) :
    Except ParseError (Parser.Reduction (Sem Unit)) × Unit :=
  match Production.ofId? number with
  | none => (.error ⟨h.pos, .corruptTables ("unknown production " ++ toString number)⟩, ())
  | some p => ((action p h).map (⟨·, p = .start⟩), ())

def nextInput (l : Lexer) : Except ParseError (Parser.Input (Sem Unit)) × Lexer :=
  match l.next with
  | (.ok t, l) => (.ok ⟨t.terminal.id, .ofLexeme t.lexeme, t.pos⟩, l)
  | (.error e, l) => (.error e, l)

def environment : Parser.Environment (Sem Unit) Lexer Unit where
  tables := templateTables
  terminalNames := Terminal.all.map Terminal.name
  next := nextInput
  reduce := reduce

def ofResult (r : Parser.Result (Sem Unit) Lexer Unit) : Except ParseError (List (Stmt Unit)) :=
  match r.value with
  | .error e => .error e
  | .ok (.stmts root) => .ok root
  | .ok _ => .error ⟨⟨0, 0⟩, .corruptTables "template root is no list of statements"⟩

end Parse

-- The tree of a source as it is written.
def parse (trim : Bool) (source : String) : Except ParseError (List (Stmt Unit)) :=
  ((Parse.environment.parse (Template.stepBound source) (.start source trim) ()).map
    Parse.ofResult).getD (.error ⟨⟨0, 0⟩, .corruptTables "the parser does not stop"⟩)

end Stencil.Named
