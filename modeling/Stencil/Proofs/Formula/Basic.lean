import Mathlib.Algebra.Ring.Nat
import Stencil.Language.Production
import Stencil.Proofs.Tree.Places
import Stencil.Text.Letter
import Stencil.Token.Basic

namespace Stencil

def startsName (c : Char) : Bool := Text.isLetter c || c = '_'

def continuesName (c : Char) : Bool := Text.isLetterOrNumeral c || c = '_'

-- A name that can be written down: no reserved word.
structure Identifier where
  text : String
  starts : text.toList.head?.any startsName = true
  continues : text.toList.all continuesName = true
  free : Terminal.keywords.lookup text = none

-- An expression on paper, with names in place of slots and without functions.
inductive Formula where
  | name (x : Identifier)
  | int (n : Fin (2 ^ 63))
  | str (s : String)
  | bool (b : Bool)
  | null
  | list (items : List Formula)
  | property (target : Formula) (key : Identifier)
  | index (target key : Formula)
  | call (callee : Formula) (args : List Formula)
  | unary (op : UnaryOp) (operand : Formula)
  | binary (op : BinaryOp) (left right : Formula)
  | and (left right : Formula)
  | or (left right : Formula)

-- How tight an expression is held together, ascending.
inductive Precedence where
  | or | and | bitOr | bitXor | bitAnd | equality | relation | shift | range | additive | product
  | unary | suffixed | primary
  deriving Repr, DecidableEq

namespace Precedence

def rank (p : Precedence) : Nat := p.ctorIdx

-- The next tighter one.
def next : Precedence → Precedence
  | or => and
  | and => bitOr
  | bitOr => bitXor
  | bitXor => bitAnd
  | bitAnd => equality
  | equality => relation
  | relation => shift
  | shift => range
  | range => additive
  | additive => product
  | product => unary
  | unary => suffixed
  | suffixed => primary
  | primary => primary

end Precedence

def BinaryOp.precedence : BinaryOp → Precedence
  | bitOr => .bitOr
  | bitXor => .bitXor
  | bitAnd => .bitAnd
  | equal | notEqual => .equality
  | less | lessEqual | greater | greaterEqual => .relation
  | shiftLeft | shiftRight | shiftRightZero => .shift
  | range => .range
  | plus | minus => .additive
  | times | divide | remainder => .product

-- Operators group to the left. A range has no range as an operand.
def BinaryOp.leftPrecedence (op : BinaryOp) : Precedence :=
  if op = .range then op.precedence.next else op.precedence

def Formula.precedence : Formula → Precedence
  | .or _ _ => .or
  | .and _ _ => .and
  | .binary op _ _ => op.precedence
  | .unary _ _ => .unary
  | .property _ _ | .index _ _ | .call _ _ => .suffixed
  | .name _ | .int _ | .str _ | .bool _ | .null | .list _ => .primary

-- A token on paper.
inductive Written where
  | name (x : Identifier)
  | number (n : Fin (2 ^ 63))
  | quoted (s : String)
  | bool (b : Bool)
  | null
  | binary (op : BinaryOp)
  | unary (op : UnaryOp)
  | and | or | dot | comma | leftParen | rightParen | leftBracket | rightBracket

-- Only the quote and the backslash itself need a backslash.
def escapeChar (c : Char) : List Char := if c = '"' ∨ c = '\\' then ['\\', c] else [c]

def Written.spelling : Written → String
  | name x => x.text
  | number n => toString n.val
  | quoted s => String.ofList ('"' :: s.toList.flatMap escapeChar ++ ['"'])
  | bool true => "true"
  | bool false => "false"
  | null => "null"
  | binary op => op.symbol
  | unary op => op.symbol
  | and => "&&"
  | or => "||"
  | dot => "."
  | comma => ","
  | leftParen => "("
  | rightParen => ")"
  | leftBracket => "["
  | rightBracket => "]"

-- Puts parentheses around an expression that is not held together tight enough.
def enclose (required actual : Precedence) (ws : List Written) : List Written :=
  if actual.rank < required.rank then .leftParen :: ws ++ [.rightParen] else ws

namespace Formula

mutual

def written : Formula → List Written
  | name x => [.name x]
  | int n => [.number n]
  | str s => [.quoted s]
  | bool b => [.bool b]
  | null => [.null]
  | list items => .leftBracket :: writtenAll items ++ [.rightBracket]
  | property target key => enclose .suffixed target.precedence target.written ++ [.dot, .name key]
  | index target key =>
    enclose .suffixed target.precedence target.written ++ .leftBracket :: key.written ++
      [.rightBracket]
  | call callee args =>
    enclose .suffixed callee.precedence callee.written ++ .leftParen :: writtenAll args ++
      [.rightParen]
  | unary op operand => .unary op :: enclose .unary operand.precedence operand.written
  | binary op left right =>
    enclose op.leftPrecedence left.precedence left.written ++
      .binary op :: enclose op.precedence.next right.precedence right.written
  | and left right =>
    enclose .and left.precedence left.written ++
      .and :: enclose Precedence.and.next right.precedence right.written
  | or left right =>
    enclose .or left.precedence left.written ++
      .or :: enclose Precedence.or.next right.precedence right.written

-- Expressions with commas between them.
def writtenAll : List Formula → List Written
  | [] => []
  | e :: rest => e.written ++ writtenRest rest

def writtenRest : List Formula → List Written
  | [] => []
  | e :: rest => .comma :: e.written ++ writtenRest rest

end

-- The expression in a placeholder of its own, with blanks between all tokens.
def source (e : Formula) : String :=
  "$\x7b " ++ " ".intercalate (e.written.map Written.spelling) ++ " \x7d"

mutual

-- The names in the order in which they are written. The key of a property is none of them.
def names : Formula → List String
  | name x => [x.text]
  | int _ | str _ | bool _ | null => []
  | list items => namesAll items
  | property target _ => target.names
  | index target key => target.names ++ key.names
  | call callee args => callee.names ++ namesAll args
  | unary _ operand => operand.names
  | binary _ left right => left.names ++ right.names
  | and left right => left.names ++ right.names
  | or left right => left.names ++ right.names

def namesAll : List Formula → List String
  | [] => []
  | e :: rest => e.names ++ namesAll rest

end

-- A name counts where it occurs first.
def note (seen : List String) (x : String) : List String := if x ∈ seen then seen else seen ++ [x]

def params (e : Formula) : List String := e.names.foldl note []

mutual

-- The tree with slots for the names, folded from the leaves up.
def expr (slot : String → Nat) : Formula → Expr
  | name x => .var (slot x.text) ⟨0, 0⟩
  | int n => .direct (.int (Int64.ofNat n)) ⟨0, 0⟩
  | str s => .direct (.str s) ⟨0, 0⟩
  | bool b => .direct (.bool b) ⟨0, 0⟩
  | null => .direct .null ⟨0, 0⟩
  | list items => .list (exprs slot items) ⟨0, 0⟩
  | property target key => .property (target.expr slot) key.text ⟨0, 0⟩
  | index target key => .index (target.expr slot) (key.expr slot) ⟨0, 0⟩
  | call callee args => .call (callee.expr slot) (exprs slot args) ⟨0, 0⟩
  | unary op operand => (Expr.unary op (operand.expr slot) ⟨0, 0⟩).optimize
  | binary op left right => (Expr.binary op (left.expr slot) (right.expr slot) ⟨0, 0⟩).optimize
  | and left right => (Expr.and (left.expr slot) (right.expr slot) ⟨0, 0⟩).optimize
  | or left right => (Expr.or (left.expr slot) (right.expr slot) ⟨0, 0⟩).optimize

def exprs (slot : String → Nat) : List Formula → List Expr
  | [] => []
  | e :: rest => e.expr slot :: exprs slot rest

end

end Formula

end Stencil
