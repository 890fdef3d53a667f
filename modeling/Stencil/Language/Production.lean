import Stencil.Grammar.Basic
import Stencil.Grammar.Compile
import Stencil.Token.Terminal

namespace Stencil

-- The non-terminals of the template language, in the order of their numbers.
inductive Nonterminal where
  | start | template | statements | statement | blockOpen | block | ifStatement | forHead
  | forLoop | forStatement | expression | orExpr | andExpr | bitOrExpr | bitXorExpr | bitAndExpr
  | equalityExpr | relationExpr | shiftExpr | rangeExpr | additiveExpr | productExpr | unaryExpr
  | postfixExpr | primary | arguments | functionHead | parameters | functionExpr
  deriving Repr, DecidableEq

namespace Nonterminal

def all : List Nonterminal := [
  start, template, statements, statement, blockOpen, block, ifStatement, forHead, forLoop,
  forStatement, expression, orExpr, andExpr, bitOrExpr, bitXorExpr, bitAndExpr, equalityExpr,
  relationExpr, shiftExpr, rangeExpr, additiveExpr, productExpr, unaryExpr, postfixExpr, primary,
  arguments, functionHead, parameters, functionExpr]

def id (n : Nonterminal) : Nat := n.ctorIdx

theorem getElem?_all_id (n : Nonterminal) : all[n.id]? = some n := by cases n <;> rfl

end Nonterminal

-- The productions of the template language, in the order of their numbers.
inductive Production where
  | start | template | noStatements | moreStatements | text | placeholder | emptyStatement
  | expressionStatement | declare | declareAssign | assign | setProperty | setIndex
  | blockStatement | ifStatement | forStatement | returnNothing | returnValue | breakInnermost
  | breakLabel | continueInnermost | continueLabel | blockOpen | block | ifThen | ifThenElse
  | ifThenElseIf | forHead | forHeadWhere | forHeadLabel | forHeadLabelWhere | forLoop | forIn
  | forInElse | expression | or | orOperand | and | andOperand | bitOr | bitOrOperand | bitXor
  | bitXorOperand | bitAnd | bitAndOperand | equal | notEqual | equalityOperand | less
  | lessEqual | greater | greaterEqual | relationOperand | shiftLeft | shiftRight
  | shiftRightZero | shiftOperand | range | rangeOperand | plus | minus | additiveOperand
  | times | divide | remainder | productOperand | negative | not | bitNot | unaryOperand
  | postfixOperand | property | index | callNothing | call | firstArgument | moreArguments
  | readVariable | integer | float | string | literalTrue | literalFalse | literalNull
  | parenthesised | emptyList | list | loopStatus | functionOperand | functionHeadNothing
  | functionHead | firstParameter | moreParameters | function
  deriving Repr, DecidableEq

-- A symbol of the template language by name.
inductive LanguageSymbol where
  | t (terminal : Terminal)
  | n (nonterminal : Nonterminal)
  deriving Repr, DecidableEq

namespace LanguageSymbol

def symbol : LanguageSymbol → Symbol
  | t terminal => .terminal terminal.id
  | n nonterminal => .nonterminal nonterminal.id

end LanguageSymbol

namespace Production

def all : List Production := [
  start, template, noStatements, moreStatements, text, placeholder, emptyStatement,
  expressionStatement, declare, declareAssign, assign, setProperty, setIndex, blockStatement,
  ifStatement, forStatement, returnNothing, returnValue, breakInnermost, breakLabel,
  continueInnermost, continueLabel, blockOpen, block, ifThen, ifThenElse, ifThenElseIf, forHead,
  forHeadWhere, forHeadLabel, forHeadLabelWhere, forLoop, forIn, forInElse, expression, or,
  orOperand, and, andOperand, bitOr, bitOrOperand, bitXor, bitXorOperand, bitAnd, bitAndOperand,
  equal, notEqual, equalityOperand, less, lessEqual, greater, greaterEqual, relationOperand,
  shiftLeft, shiftRight, shiftRightZero, shiftOperand, range, rangeOperand, plus, minus,
  additiveOperand, times, divide, remainder, productOperand, negative, not, bitNot, unaryOperand,
  postfixOperand, property, index, callNothing, call, firstArgument, moreArguments, readVariable,
  integer, float, string, literalTrue, literalFalse, literalNull, parenthesised, emptyList, list,
  loopStatus, functionOperand, functionHeadNothing, functionHead, firstParameter, moreParameters,
  function]

def id (p : Production) : Nat := p.ctorIdx

theorem getElem?_all_id (p : Production) : all[p.id]? = some p := by cases p <;> rfl

def ofId? (i : Nat) : Option Production := all[i]?

-- The two sides of a production.
def sides : Production → Nonterminal × List LanguageSymbol
  | start => (.start, [.n .template, .t .endOfInput])
  | template => (.template, [.n .statements])
  | noStatements => (.statements, [])
  | moreStatements => (.statements, [.n .statements, .n .statement])
  | text => (.statement, [.t .text])
  | placeholder => (.statement, [.t .placeholder, .n .expression, .t .rightBrace])
  | emptyStatement => (.statement, [.t .semicolon])
  | expressionStatement => (.statement, [.n .expression, .t .semicolon])
  | declare => (.statement, [.t .kwVar, .t .identifier, .t .semicolon])
  | declareAssign =>
    (.statement, [.t .kwVar, .t .identifier, .t .assign, .n .expression, .t .semicolon])
  | assign => (.statement, [.t .identifier, .t .assign, .n .expression, .t .semicolon])
  | setProperty =>
    (.statement, [.n .postfixExpr, .t .dot, .t .identifier, .t .assign, .n .expression,
      .t .semicolon])
  | setIndex =>
    (.statement, [.n .postfixExpr, .t .leftBracket, .n .expression, .t .rightBracket, .t .assign,
      .n .expression, .t .semicolon])
  | blockStatement => (.statement, [.n .block])
  | ifStatement => (.statement, [.n .ifStatement])
  | forStatement => (.statement, [.n .forStatement])
  | returnNothing => (.statement, [.t .kwReturn, .t .semicolon])
  | returnValue => (.statement, [.t .kwReturn, .n .expression, .t .semicolon])
  | breakInnermost => (.statement, [.t .kwBreak, .t .semicolon])
  | breakLabel => (.statement, [.t .kwBreak, .t .identifier, .t .semicolon])
  | continueInnermost => (.statement, [.t .kwContinue, .t .semicolon])
  | continueLabel => (.statement, [.t .kwContinue, .t .identifier, .t .semicolon])
  | blockOpen => (.blockOpen, [.t .leftBrace])
  | block => (.block, [.n .blockOpen, .n .statements, .t .rightBrace])
  | ifThen => (.ifStatement, [.t .kwIf, .t .leftParen, .n .expression, .t .rightParen, .n .block])
  | ifThenElse =>
    (.ifStatement, [.t .kwIf, .t .leftParen, .n .expression, .t .rightParen, .n .block,
      .t .kwElse, .n .block])
  | ifThenElseIf =>
    (.ifStatement, [.t .kwIf, .t .leftParen, .n .expression, .t .rightParen, .n .block,
      .t .kwElse, .n .ifStatement])
  | forHead =>
    (.forHead, [.t .kwFor, .t .leftParen, .t .identifier, .t .colon, .n .expression,
      .t .rightParen])
  | forHeadWhere =>
    (.forHead, [.t .kwFor, .t .leftParen, .t .identifier, .t .colon, .n .expression, .t .kwWhere,
      .n .expression, .t .rightParen])
  | forHeadLabel =>
    (.forHead, [.t .identifier, .t .colon, .t .kwFor, .t .leftParen, .t .identifier, .t .colon,
      .n .expression, .t .rightParen])
  | forHeadLabelWhere =>
    (.forHead, [.t .identifier, .t .colon, .t .kwFor, .t .leftParen, .t .identifier, .t .colon,
      .n .expression, .t .kwWhere, .n .expression, .t .rightParen])
  | forLoop => (.forLoop, [.n .forHead, .n .block])
  | forIn => (.forStatement, [.n .forLoop])
  | forInElse => (.forStatement, [.n .forLoop, .t .kwElse, .n .block])
  | expression => (.expression, [.n .orExpr])
  | or => (.orExpr, [.n .orExpr, .t .or, .n .andExpr])
  | orOperand => (.orExpr, [.n .andExpr])
  | and => (.andExpr, [.n .andExpr, .t .and, .n .bitOrExpr])
  | andOperand => (.andExpr, [.n .bitOrExpr])
  | bitOr => (.bitOrExpr, [.n .bitOrExpr, .t .bitOr, .n .bitXorExpr])
  | bitOrOperand => (.bitOrExpr, [.n .bitXorExpr])
  | bitXor => (.bitXorExpr, [.n .bitXorExpr, .t .bitXor, .n .bitAndExpr])
  | bitXorOperand => (.bitXorExpr, [.n .bitAndExpr])
  | bitAnd => (.bitAndExpr, [.n .bitAndExpr, .t .bitAnd, .n .equalityExpr])
  | bitAndOperand => (.bitAndExpr, [.n .equalityExpr])
  | equal => (.equalityExpr, [.n .equalityExpr, .t .equal, .n .relationExpr])
  | notEqual => (.equalityExpr, [.n .equalityExpr, .t .notEqual, .n .relationExpr])
  | equalityOperand => (.equalityExpr, [.n .relationExpr])
  | less => (.relationExpr, [.n .relationExpr, .t .less, .n .shiftExpr])
  | lessEqual => (.relationExpr, [.n .relationExpr, .t .lessEqual, .n .shiftExpr])
  | greater => (.relationExpr, [.n .relationExpr, .t .greater, .n .shiftExpr])
  | greaterEqual => (.relationExpr, [.n .relationExpr, .t .greaterEqual, .n .shiftExpr])
  | relationOperand => (.relationExpr, [.n .shiftExpr])
  | shiftLeft => (.shiftExpr, [.n .shiftExpr, .t .shiftLeft, .n .rangeExpr])
  | shiftRight => (.shiftExpr, [.n .shiftExpr, .t .shiftRight, .n .rangeExpr])
  | shiftRightZero => (.shiftExpr, [.n .shiftExpr, .t .shiftRightZero, .n .rangeExpr])
  | shiftOperand => (.shiftExpr, [.n .rangeExpr])
  | range => (.rangeExpr, [.n .additiveExpr, .t .dotDot, .n .additiveExpr])
  | rangeOperand => (.rangeExpr, [.n .additiveExpr])
  | plus => (.additiveExpr, [.n .additiveExpr, .t .plus, .n .productExpr])
  | minus => (.additiveExpr, [.n .additiveExpr, .t .minus, .n .productExpr])
  | additiveOperand => (.additiveExpr, [.n .productExpr])
  | times => (.productExpr, [.n .productExpr, .t .star, .n .unaryExpr])
  | divide => (.productExpr, [.n .productExpr, .t .slash, .n .unaryExpr])
  | remainder => (.productExpr, [.n .productExpr, .t .percent, .n .unaryExpr])
  | productOperand => (.productExpr, [.n .unaryExpr])
  | negative => (.unaryExpr, [.t .minus, .n .unaryExpr])
  | not => (.unaryExpr, [.t .not, .n .unaryExpr])
  | bitNot => (.unaryExpr, [.t .tilde, .n .unaryExpr])
  | unaryOperand => (.unaryExpr, [.n .postfixExpr])
  | postfixOperand => (.postfixExpr, [.n .primary])
  | property => (.postfixExpr, [.n .postfixExpr, .t .dot, .t .identifier])
  | index => (.postfixExpr, [.n .postfixExpr, .t .leftBracket, .n .expression, .t .rightBracket])
  | callNothing => (.postfixExpr, [.n .postfixExpr, .t .leftParen, .t .rightParen])
  | call => (.postfixExpr, [.n .postfixExpr, .t .leftParen, .n .arguments, .t .rightParen])
  | firstArgument => (.arguments, [.n .expression])
  | moreArguments => (.arguments, [.n .arguments, .t .comma, .n .expression])
  | readVariable => (.primary, [.t .identifier])
  | integer => (.primary, [.t .integer])
  | float => (.primary, [.t .float])
  | string => (.primary, [.t .string])
  | literalTrue => (.primary, [.t .kwTrue])
  | literalFalse => (.primary, [.t .kwFalse])
  | literalNull => (.primary, [.t .kwNull])
  | parenthesised => (.primary, [.t .leftParen, .n .expression, .t .rightParen])
  | emptyList => (.primary, [.t .leftBracket, .t .rightBracket])
  | list => (.primary, [.t .leftBracket, .n .arguments, .t .rightBracket])
  | loopStatus => (.primary, [.t .kwFor, .t .dot, .t .identifier])
  | functionOperand => (.primary, [.n .functionExpr])
  | functionHeadNothing => (.functionHead, [.t .kwFunction, .t .leftParen, .t .rightParen])
  | functionHead =>
    (.functionHead, [.t .kwFunction, .t .leftParen, .n .parameters, .t .rightParen])
  | firstParameter => (.parameters, [.t .identifier])
  | moreParameters => (.parameters, [.n .parameters, .t .comma, .t .identifier])
  | function => (.functionExpr, [.n .functionHead, .n .block])

def rule (p : Production) : Rule := ⟨p.sides.1.id, p.sides.2.map LanguageSymbol.symbol⟩

end Production

-- The grammar of the template language.
def templateGrammar : Grammar where
  terminals := Terminal.all.length
  nonterminals := Nonterminal.all.length
  eof := Terminal.endOfInput.id
  rules := (Production.all.map Production.rule).toArray

-- The tables that parse templates. The grammar has neither unknown symbols nor too many states,
-- so compiling it succeeds.
def templateTables : Tables := templateGrammar.tables

end Stencil
