import Stencil.Language.Production
import Stencil.Parser.Machine
import Stencil.Token.Basic
import Stencil.Tree.Fold
import Stencil.Tree.Scope

namespace Stencil

-- The part of a `for` loop that is known before its body.
structure ForHead where
  label : Nat
  iterSlot : Nat
  itemSlot : Nat
  collection : Expr
  filter : Option Expr
  pos : Position

-- The meaning of a grammar symbol.
inductive Sem where
  | none
  | identifier (name : String)
  | literal (value : Literal)
  | text (text : String)
  | expr (e : Expr)
  | exprs (es : List Expr)
  | stmt (s : Stmt)
  | stmts (ss : List Stmt)
  | params (names : List String)
  | forHead (head : ForHead)
  | forLoop (head : ForHead) (body : List Stmt)
  -- The arity of a function whose frame is open.
  | functionHead (arity : Nat)

namespace Sem

def ofLexeme : Lexeme → Sem
  | .none => .none
  | .identifier name => .identifier name
  | .literal v => .literal v
  | .text s => .text s

end Sem

structure BuildOptions where
  -- Whether names that nobody declares are parameters of the template.
  looseVar : Bool
  -- Whether operators and conditions on literals are worked out at once.
  folding : Bool
  deriving Repr, DecidableEq

-- What is known of a template while its tree grows: the names in sight, the labels met so far and
-- the parameters found so far, the last one first.
structure Draft where
  scopes : Scopes
  labels : Labels
  params : List (String × Nat)
  deriving Repr, DecidableEq

namespace Draft

def empty : Draft := ⟨.empty, [], []⟩

end Draft

namespace Build

abbrev Handle := Parser.Handle Sem

abbrev BuildM := StateT Draft (Except ParseError)

def fail (pos : Position) (fault : ParseFault) : BuildM α := throw ⟨pos, fault⟩

def mismatch (h : Handle) (i : Nat) (expected : String) : BuildM α :=
  fail (h.posAt i)
    (.corruptTables ("expected " ++ expected ++ " at handle index " ++ toString i))

def takeAs (expected : String) (select : Sem → Option α) (h : Handle) (i : Nat) : BuildM α :=
  match (h.value? i).bind select with
  | some a => pure a
  | none => mismatch h i expected

def takeExpr : Handle → Nat → BuildM Expr := takeAs "Expr" fun | .expr e => some e | _ => none

def takeExprs : Handle → Nat → BuildM (List Expr) :=
  takeAs "Exprs" fun | .exprs es => some es | _ => none

def takeIdent : Handle → Nat → BuildM String :=
  takeAs "Ident" fun | .identifier name => some name | _ => none

def takeLiteral : Handle → Nat → BuildM Literal :=
  takeAs "Literal" fun | .literal value => some value | _ => none

def takeText : Handle → Nat → BuildM String :=
  takeAs "Text" fun | .text text => some text | _ => none

def takeStmt : Handle → Nat → BuildM Stmt := takeAs "Stmt" fun | .stmt s => some s | _ => none

def takeStmts : Handle → Nat → BuildM (List Stmt) :=
  takeAs "Stmts" fun | .stmts ss => some ss | _ => none

def takeParams : Handle → Nat → BuildM (List String) :=
  takeAs "Params" fun | .params names => some names | _ => none

def takeForHead : Handle → Nat → BuildM ForHead :=
  takeAs "ForHead" fun | .forHead head => some head | _ => none

def takeForLoop : Handle → Nat → BuildM (ForHead × List Stmt) :=
  takeAs "ForHead" fun | .forLoop head body => some (head, body) | _ => none

def takeFunctionHead : Handle → Nat → BuildM Nat :=
  takeAs "FunctionHead" fun | .functionHead arity => some arity | _ => none

-- Passes a meaning on as it is.
def passOn (h : Handle) (i : Nat) : BuildM Sem := pure ((h.value? i).getD .none)

def modifyScopes (change : Scopes → Scopes) : BuildM Unit :=
  modify fun d => { d with scopes := change d.scopes }

-- The slot of a name. A name of the template itself that nobody declared becomes a parameter if
-- that is allowed.
def resolve (options : BuildOptions) (name : String) (pos : Position) : BuildM Nat := do
  let d ← get
  match d.scopes.lookup name with
  | some slot => return slot
  | none =>
    if options.looseVar && d.scopes.isRoot then
      let (slot, scopes) := d.scopes.declareRoot name
      set { d with scopes, params := (name, slot) :: d.params }
      return slot
    else fail pos (.undeclaredVariable name)

def declare (name : String) (pos : Position) : BuildM Nat := do
  let d ← get
  match d.scopes.declare name with
  | .ok (slot, scopes) =>
    set { d with scopes }
    return slot
  | .error fault => fail pos fault

def declareHidden : BuildM Nat := do
  let d ← get
  let (slot, scopes) := d.scopes.declareHidden
  set { d with scopes }
  return slot

def labelIndex (label : Option String) : BuildM Nat := do
  let d ← get
  let (i, labels) := d.labels.index label
  set { d with labels }
  return i

variable (options : BuildOptions)

def folded (e : Expr) : Sem := .expr (if options.folding then e.optimize else e)

def binary (op : BinaryOp) (h : Handle) : BuildM Sem := do
  let left ← takeExpr h 0
  let right ← takeExpr h 2
  return folded options (.binary op left right (h.posAt 1))

def unary (op : UnaryOp) (h : Handle) : BuildM Sem := do
  let operand ← takeExpr h 1
  return folded options (.unary op operand (h.posAt 0))

def logical (make : Expr → Expr → Position → Expr) (h : Handle) : BuildM Sem := do
  let left ← takeExpr h 0
  let right ← takeExpr h 2
  return folded options (make left right (h.posAt 1))

def ifStatement (h : Handle) (no : List Stmt) : BuildM Sem := do
  let test ← takeExpr h 2
  let yes ← takeStmts h 4
  let pos := h.posAt 0
  return .stmt (if options.folding then .branch test yes no pos else .cond test yes no pos)

def literal (value : Literal) (h : Handle) : Sem := .expr (.direct value (h.posAt 0))

-- Opens the scope of a loop, with a slot for its iterator and one for its item. The loop ends with
-- its body.
def forHead (h : Handle) (labelAt : Option Nat) (itemAt : Nat) (filterAt : Option Nat) :
    BuildM Sem := do
  let label ← labelAt.mapM (takeIdent h)
  let item ← takeIdent h itemAt
  let collection ← takeExpr h (itemAt + 2)
  let filter ← filterAt.mapM (takeExpr h)
  let label ← labelIndex label
  modifyScopes .pushScope
  let iterSlot ← declareHidden
  let itemSlot ← declare item (h.posAt itemAt)
  modifyScopes (·.pushLoop ⟨label, iterSlot⟩)
  return .forHead ⟨label, iterSlot, itemSlot, collection, filter, h.posAt 0⟩

def forStatement (head : ForHead) (body : List Stmt) (otherwise : Option (List Stmt)) : Sem :=
  .stmt (.forIn head.label head.iterSlot head.itemSlot head.collection head.filter body otherwise
    head.pos)

-- A jump without a label needs a loop around it.
def innermostTarget (keyword : String) (h : Handle) : BuildM (Option Nat) := do
  match (← get).scopes.innermostLoop? with
  | some _ => return none
  | none => fail (h.posAt 0) (.notInLoop keyword)

-- A label must be that of a loop around the jump.
def labelledTarget (h : Handle) : BuildM (Option Nat) := do
  let label ← takeIdent h 1
  let d ← get
  match d.labels.lookup label with
  | some i =>
    if d.scopes.hasLoop i then return some i else fail (h.posAt 1) (.unknownLabel label)
  | none => fail (h.posAt 1) (.unknownLabel label)

def loopStatus (h : Handle) : BuildM Sem := do
  let property ← takeIdent h 2
  if property ≠ "iter" then fail (h.posAt 2) (.invalidLoopStatus property)
  else match (← get).scopes.innermostLoop? with
    | some loop => return .expr (.var loop.iterSlot (h.posAt 0))
    | none => fail (h.posAt 0) (.notInLoop "for.iter")

def declareAll (pos : Position) : List String → BuildM Unit
  | [] => pure ()
  | name :: rest => do
    let _ ← declare name pos
    declareAll pos rest

-- What a production makes of the meanings of its right side.
def action (p : Production) (h : Handle) : BuildM Sem := do
  match p with
  | .start => return .stmts (← takeStmts h 0)
  | .noStatements => return .stmts []
  | .moreStatements =>
    let stmts ← takeStmts h 0
    match h.value? 1 with
    | some (.stmt s) => return .stmts (stmts ++ [s])
    | some .none | none => return .stmts stmts
    | some _ => mismatch h 1 "Stmt"
  | .text => return .stmt (.text (← takeText h 0) (h.posAt 0))
  | .placeholder => return .stmt (.placeholder (← takeExpr h 1) (h.posAt 0))
  | .emptyStatement => return .none
  | .expressionStatement => return .stmt (.expr (← takeExpr h 0))
  | .declare =>
    let name ← takeIdent h 1
    let pos := h.posAt 1
    let slot ← declare name pos
    return .stmt (.assign slot (.direct .null pos) pos)
  | .declareAssign =>
    let name ← takeIdent h 1
    let value ← takeExpr h 3
    let pos := h.posAt 1
    let slot ← declare name pos
    return .stmt (.assign slot value pos)
  | .assign =>
    let name ← takeIdent h 0
    let value ← takeExpr h 2
    let pos := h.posAt 0
    let slot ← resolve options name pos
    return .stmt (.assign slot value pos)
  | .setProperty =>
    let target ← takeExpr h 0
    let key ← takeIdent h 2
    let value ← takeExpr h 4
    return .stmt (.setProperty target key value (h.posAt 1))
  | .setIndex =>
    let target ← takeExpr h 0
    let key ← takeExpr h 2
    let value ← takeExpr h 5
    return .stmt (.setIndex target key value (h.posAt 1))
  | .blockStatement => return .stmt (.block (← takeStmts h 0))
  | .template | .ifStatement | .forStatement | .expression | .orOperand | .andOperand
  | .bitOrOperand | .bitXorOperand | .bitAndOperand | .equalityOperand | .relationOperand
  | .shiftOperand | .rangeOperand | .additiveOperand | .productOperand | .unaryOperand
  | .postfixOperand | .functionOperand => passOn h 0
  | .returnNothing => return .stmt (.ret none (h.posAt 0))
  | .returnValue => return .stmt (.ret (some (← takeExpr h 1)) (h.posAt 0))
  | .breakInnermost => return .stmt (.brk (← innermostTarget "break" h) (h.posAt 0))
  | .breakLabel => return .stmt (.brk (← labelledTarget h) (h.posAt 0))
  | .continueInnermost => return .stmt (.cont (← innermostTarget "continue" h) (h.posAt 0))
  | .continueLabel => return .stmt (.cont (← labelledTarget h) (h.posAt 0))
  | .blockOpen =>
    modifyScopes .pushScope
    return .none
  | .block =>
    modifyScopes .popScope
    return .stmts (← takeStmts h 1)
  | .ifThen => ifStatement options h []
  | .ifThenElse => ifStatement options h (← takeStmts h 6)
  | .ifThenElseIf => ifStatement options h [← takeStmt h 6]
  | .forHead => forHead h none 2 none
  | .forHeadWhere => forHead h none 2 (some 6)
  | .forHeadLabel => forHead h (some 0) 4 none
  | .forHeadLabelWhere => forHead h (some 0) 4 (some 8)
  | .forLoop =>
    let head ← takeForHead h 0
    let body ← takeStmts h 1
    modifyScopes .popLoop
    modifyScopes .popScope
    return .forLoop head body
  | .forIn =>
    let (head, body) ← takeForLoop h 0
    return forStatement head body none
  | .forInElse =>
    let (head, body) ← takeForLoop h 0
    return forStatement head body (some (← takeStmts h 2))
  | .or => logical options .or h
  | .and => logical options .and h
  | .bitOr => binary options .bitOr h
  | .bitXor => binary options .bitXor h
  | .bitAnd => binary options .bitAnd h
  | .equal => binary options .equal h
  | .notEqual => binary options .notEqual h
  | .less => binary options .less h
  | .lessEqual => binary options .lessEqual h
  | .greater => binary options .greater h
  | .greaterEqual => binary options .greaterEqual h
  | .shiftLeft => binary options .shiftLeft h
  | .shiftRight => binary options .shiftRight h
  | .shiftRightZero => binary options .shiftRightZero h
  | .range => binary options .range h
  | .plus => binary options .plus h
  | .minus => binary options .minus h
  | .times => binary options .times h
  | .divide => binary options .divide h
  | .remainder => binary options .remainder h
  | .negative => unary options .negative h
  | .not => unary options .not h
  | .bitNot => unary options .bitNot h
  | .property =>
    let target ← takeExpr h 0
    let key ← takeIdent h 2
    return .expr (.property target key (h.posAt 1))
  | .index =>
    let target ← takeExpr h 0
    let key ← takeExpr h 2
    return .expr (.index target key (h.posAt 1))
  | .callNothing => return .expr (.call (← takeExpr h 0) [] (h.posAt 1))
  | .call =>
    let callee ← takeExpr h 0
    let args ← takeExprs h 2
    return .expr (.call callee args (h.posAt 1))
  | .firstArgument => return .exprs [← takeExpr h 0]
  | .moreArguments =>
    let args ← takeExprs h 0
    return .exprs (args ++ [← takeExpr h 2])
  | .readVariable =>
    let name ← takeIdent h 0
    let pos := h.posAt 0
    let slot ← resolve options name pos
    return .expr (.var slot pos)
  | .integer | .float | .string => return literal (← takeLiteral h 0) h
  | .literalTrue => return literal (.bool true) h
  | .literalFalse => return literal (.bool false) h
  | .literalNull => return literal .null h
  | .parenthesised => passOn h 1
  | .emptyList => return .expr (.list [] (h.posAt 0))
  | .list => return .expr (.list (← takeExprs h 1) (h.posAt 0))
  | .loopStatus => loopStatus h
  | .functionHeadNothing =>
    modifyScopes .pushFrame
    return .functionHead 0
  | .functionHead =>
    let params ← takeParams h 2
    modifyScopes .pushFrame
    declareAll (h.posAt 2) params
    return .functionHead params.length
  | .firstParameter => return .params [← takeIdent h 0]
  | .moreParameters =>
    let params ← takeParams h 0
    return .params (params ++ [← takeIdent h 2])
  | .function =>
    let arity ← takeFunctionHead h 0
    let body ← takeStmts h 1
    let d ← get
    let (frameSize, scopes) := d.scopes.popFrame
    set { d with scopes }
    return .expr (.function arity frameSize body (h.posAt 0))

-- The action of a production by number. The start production ends the parse.
def reduce (number : Nat) (h : Handle) (d : Draft) :
    Except ParseError (Parser.Reduction Sem) × Draft :=
  match Production.ofId? number with
  | none => (.error ⟨h.pos, .corruptTables ("unknown production " ++ toString number)⟩, d)
  | some p =>
    match action options p h d with
    | .ok (value, d) => (.ok ⟨value, p = .start⟩, d)
    | .error e => (.error e, d)

end Build

end Stencil
