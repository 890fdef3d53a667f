namespace Stencil

-- The terminal symbols of the template language, in the order of their numbers.
inductive Terminal where
  | endOfInput | text | placeholder | identifier | integer | float | string
  | kwTrue | kwFalse | kwNull | kwVar | kwIf | kwElse | kwFor | kwWhere | kwFunction | kwReturn
  | kwBreak | kwContinue
  | semicolon | comma | dot | dotDot | colon
  | leftParen | rightParen | leftBracket | rightBracket | leftBrace | rightBrace
  | assign | or | and | bitOr | bitXor | bitAnd
  | equal | notEqual | less | lessEqual | greater | greaterEqual
  | shiftLeft | shiftRight | shiftRightZero
  | plus | minus | star | slash | percent | not | tilde
  deriving Repr, DecidableEq

namespace Terminal

-- How a terminal is called in an error message.
def name : Terminal → String
  | endOfInput => "end of input"
  | text => "text"
  | placeholder => "'$\x7b'"
  | identifier => "identifier"
  | integer => "integer"
  | float => "float"
  | string => "string"
  | kwTrue => "'true'"
  | kwFalse => "'false'"
  | kwNull => "'null'"
  | kwVar => "'var'"
  | kwIf => "'if'"
  | kwElse => "'else'"
  | kwFor => "'for'"
  | kwWhere => "'where'"
  | kwFunction => "'function'"
  | kwReturn => "'return'"
  | kwBreak => "'break'"
  | kwContinue => "'continue'"
  | semicolon => "';'"
  | comma => "','"
  | dot => "'.'"
  | dotDot => "'..'"
  | colon => "':'"
  | leftParen => "'('"
  | rightParen => "')'"
  | leftBracket => "'['"
  | rightBracket => "']'"
  | leftBrace => "'\x7b'"
  | rightBrace => "'\x7d'"
  | assign => "'='"
  | or => "'||'"
  | and => "'&&'"
  | bitOr => "'|'"
  | bitXor => "'^'"
  | bitAnd => "'&'"
  | equal => "'=='"
  | notEqual => "'!='"
  | less => "'<'"
  | lessEqual => "'<='"
  | greater => "'>'"
  | greaterEqual => "'>='"
  | shiftLeft => "'<<'"
  | shiftRight => "'>>'"
  | shiftRightZero => "'>>>'"
  | plus => "'+'"
  | minus => "'-'"
  | star => "'*'"
  | slash => "'/'"
  | percent => "'%'"
  | not => "'!'"
  | tilde => "'~'"

def all : List Terminal := [
  endOfInput, text, placeholder, identifier, integer, float, string,
  kwTrue, kwFalse, kwNull, kwVar, kwIf, kwElse, kwFor, kwWhere, kwFunction, kwReturn,
  kwBreak, kwContinue,
  semicolon, comma, dot, dotDot, colon,
  leftParen, rightParen, leftBracket, rightBracket, leftBrace, rightBrace,
  assign, or, and, bitOr, bitXor, bitAnd,
  equal, notEqual, less, lessEqual, greater, greaterEqual,
  shiftLeft, shiftRight, shiftRightZero,
  plus, minus, star, slash, percent, not, tilde]

-- The number of a terminal is its place in `all`.
def id (t : Terminal) : Nat := t.ctorIdx

theorem getElem?_all_id (t : Terminal) : all[t.id]? = some t := by cases t <;> rfl

theorem id_injective {s t : Terminal} (h : s.id = t.id) : s = t := by
  have hs := getElem?_all_id s
  rw [h, getElem?_all_id t] at hs
  exact (Option.some.inj hs).symm

-- Reserved words.
def keywords : List (String × Terminal) := [
  ("var", kwVar), ("if", kwIf), ("else", kwElse), ("for", kwFor), ("where", kwWhere),
  ("function", kwFunction), ("return", kwReturn), ("break", kwBreak), ("continue", kwContinue),
  ("true", kwTrue), ("false", kwFalse), ("null", kwNull)]

-- Operators and punctuation, a longer one before each of its beginnings.
def operators : List (List Char × Terminal) := [
  (['>', '>', '>'], shiftRightZero),
  (['.', '.'], dotDot), (['<', '<'], shiftLeft), (['>', '>'], shiftRight), (['<', '='], lessEqual),
  (['>', '='], greaterEqual), (['=', '='], equal), (['!', '='], notEqual), (['&', '&'], and),
  (['|', '|'], or),
  ([';'], semicolon), ([','], comma), (['.'], dot), ([':'], colon), (['('], leftParen),
  ([')'], rightParen), (['['], leftBracket), ([']'], rightBracket), (['\x7b'], leftBrace),
  (['\x7d'], rightBrace), (['='], assign), (['|'], bitOr), (['^'], bitXor), (['&'], bitAnd),
  (['<'], less), (['>'], greater), (['+'], plus), (['-'], minus), (['*'], star), (['/'], slash),
  (['%'], percent), (['!'], not), (['~'], tilde)]

end Terminal

end Stencil
