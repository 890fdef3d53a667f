import Stencil.Source.Position

namespace Stencil

-- Why a source is refused.
inductive ParseFault where
  | unexpectedToken (found : String)
  | illegalCharacter (c : Char)
  | unterminatedString
  | unterminatedComment
  | invalidEscape
  | invalidNumber (literal : String)
  | undeclaredVariable (name : String)
  | duplicateVariable (name : String)
  | unknownLabel (label : String)
  | notInLoop (keyword : String)
  | invalidLoopStatus (property : String)
  -- Tables and semantic actions disagree with each other. No source causes this.
  | corruptTables (reason : String)
  deriving Repr, DecidableEq

namespace ParseFault

def message : ParseFault → String
  | unexpectedToken found => "Parser stop at here, unexpected " ++ found
  | illegalCharacter c => "Illegal character '" ++ c.toString ++ "'"
  | unterminatedString => "Unterminated string literal"
  | unterminatedComment => "Unterminated block comment"
  | invalidEscape => "Invalid escape sequence in string literal"
  | invalidNumber literal => "Invalid number literal '" ++ literal ++ "'"
  | undeclaredVariable name => "Variable '" ++ name ++ "' is not declared"
  | duplicateVariable name => "Variable '" ++ name ++ "' is already declared in this scope"
  | unknownLabel label => "Unknown loop label '" ++ label ++ "'"
  | notInLoop keyword => "'" ++ keyword ++ "' used outside of a loop"
  | invalidLoopStatus property =>
    "Unknown loop status 'for." ++ property ++ "', expected 'for.iter'"
  | corruptTables reason => "Parser tables are inconsistent: " ++ reason

end ParseFault

structure ParseError where
  pos : Position
  fault : ParseFault
  deriving Repr, DecidableEq

namespace ParseError

def message (e : ParseError) : String :=
  "Parse error at line " ++ toString e.pos.line ++ ", column " ++ toString e.pos.column ++ ": " ++
    e.fault.message

end ParseError

end Stencil
