import Stencil.Literal
import Stencil.Source.ParseError
import Stencil.Source.Position
import Stencil.Token.Terminal

namespace Stencil

-- What a token carries besides its kind.
inductive Lexeme where
  | none
  | identifier (name : String)
  | literal (value : Literal)
  | text (text : String)
  deriving Repr

structure Token where
  terminal : Terminal
  lexeme : Lexeme
  pos : Position
  deriving Repr

-- The part of a source that is still to be read, and where it starts.
structure Cursor where
  rest : List Char
  mark : Mark
  deriving Repr

namespace Cursor

def pos (s : Cursor) : Position := s.mark.pos

-- Steps over the next `n` characters.
def skip (s : Cursor) (n : Nat) : Cursor := ⟨s.rest.drop n, s.mark.past (s.rest.take n)⟩

-- Splits off the longest beginning of characters with the property.
def takeWhile (s : Cursor) (p : Char → Bool) : List Char × Cursor :=
  (s.rest.takeWhile p, ⟨s.rest.dropWhile p, s.mark.past (s.rest.takeWhile p)⟩)

theorem takeWhile_append (s : Cursor) (p : Char → Bool) :
    (s.takeWhile p).1 ++ (s.takeWhile p).2.rest = s.rest := List.takeWhile_append_dropWhile

end Cursor

end Stencil
