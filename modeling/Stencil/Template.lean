import Stencil.Language.Production
import Stencil.Token.Lexer
import Stencil.Tree.Build
import Stencil.Tree.Listing

namespace Stencil

-- Settings shared by all templates of an engine.
structure Config where
  -- Whether names that no template declares are its parameters.
  looseVar : Bool := true
  -- Whether lines that hold nothing but one code block are dropped.
  trim : Bool := true
  -- Whether properties of host classes are looked up through generated accessors.
  generateAccessors : Bool := true
  -- The encoding of byte output that names no other.
  encoding : String := "UTF-8"
  deriving Repr, DecidableEq

-- A compiled template. Parameters are the names it reads without declaring them, with their
-- slots, in the order in which they were found.
structure Template where
  source : String
  root : List Stmt
  frameSize : Nat
  params : List (String × Nat)
  name : Option String

namespace Template

def nextInput (l : Lexer) : Except ParseError (Parser.Input Sem) × Lexer :=
  match l.next with
  | (.ok t, l) => (.ok ⟨t.terminal.id, .ofLexeme t.lexeme, t.pos⟩, l)
  | (.error e, l) => (.error e, l)

-- The parser of the template language.
def environment (options : BuildOptions) : Parser.Environment Sem Lexer Draft where
  tables := templateTables
  terminalNames := Terminal.all.map Terminal.name
  next := nextInput
  reduce := Build.reduce options

def ofResult (source : String) (r : Parser.Result Sem Lexer Draft) : Except ParseError Template :=
  match r.value with
  | .error e => .error e
  | .ok (.stmts root) =>
    .ok ⟨source, root, r.memory.scopes.frame.nextSlot, r.memory.params.reverse, none⟩
  | .ok _ => .error ⟨⟨0, 0⟩, .corruptTables "template root is no list of statements"⟩

-- Compiles a source in at most `fuel` steps of the parser.
def compileWithin (fuel : Nat) (options : BuildOptions) (trim : Bool) (source : String) :
    Option (Except ParseError Template) :=
  ((environment options).parse fuel (.start source trim) .empty).map (ofResult source)

-- Each token is shifted once, and between two shifts there are no more reductions than the
-- grammar has levels, apart from those that shorten the stack.
def stepBound (source : String) : Nat := 200 * (source.length + 2)

def compile (config : Config) (source : String) : Except ParseError Template :=
  (compileWithin (stepBound source) ⟨config.looseVar, true⟩ config.trim source).getD
    (.error ⟨⟨0, 0⟩, .corruptTables "the parser does not stop"⟩)

-- The tree, the size of the frame and the parameters in a listing.
def listing (t : Template) : String :=
  "root: " ++ Text.bracketed (stmtListings t.root) ++ ", frame_size: " ++ toString t.frameSize ++
    ", params: " ++ Text.bracketed (t.params.map fun (name, slot) =>
      "(" ++ Text.quote name ++ ", " ++ toString slot ++ ")")

end Template

end Stencil
