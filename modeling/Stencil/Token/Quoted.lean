import Stencil.Token.Numeral

namespace Stencil.Token

-- The character that stands after a backslash and means another one, or itself.
def simpleEscape? : Char → Option Char
  | 'n' => some '\n'
  | 't' => some '\t'
  | 'r' => some '\r'
  | '0' => some '\x00'
  | '\\' => some '\\'
  | '\'' => some '\''
  | '"' => some '"'
  | '$' => some '$'
  | _ => none

-- A Unicode scalar value.
def scalar? (n : Nat) : Option Char :=
  if h : n.isValidChar then some (Char.ofNatAux n h) else none

-- The number behind `\u`: four hexadecimal digits, the first of which may be a plus sign instead.
def codeUnit? (a b c d : Char) : Option Nat :=
  if [b, c, d].all isHexDigit then
    if isHexDigit a then some (ofHexDigits [a, b, c, d])
    else if a = '+' then some (ofHexDigits [b, c, d])
    else none
  else none

-- Reads a string after its opening quote, collecting its characters in reverse. Input that ends
-- too early is reported at the opening quote, a wrong escape at its backslash.
def scanQuoted (quote : Char) (opening : Position) :
    List Char → Mark → List Char → Except ParseError String × Cursor
  | [], m, _ => (.error ⟨opening, .unterminatedString⟩, ⟨[], m⟩)
  | ['\\'], m, _ => (.error ⟨opening, .unterminatedString⟩, ⟨[], m.after '\\'⟩)
  | '\\' :: 'u' :: a :: b :: c :: d :: r, m, done =>
    match (codeUnit? a b c d).bind scalar? with
    | some x => scanQuoted quote opening r (m.past ['\\', 'u', a, b, c, d]) (x :: done)
    | none => (.error ⟨m.pos, .invalidEscape⟩, ⟨a :: b :: c :: d :: r, m.past ['\\', 'u']⟩)
  | '\\' :: e :: r, m, done =>
    match simpleEscape? e with
    | some x => scanQuoted quote opening r (m.past ['\\', e]) (x :: done)
    | none => (.error ⟨m.pos, .invalidEscape⟩, ⟨r, m.past ['\\', e]⟩)
  | c :: r, m, done =>
    if c = quote then (.ok (String.ofList done.reverse), ⟨r, m.after c⟩)
    else scanQuoted quote opening r (m.after c) (c :: done)

-- Reads the string at a quote.
def scanString (quote : Char) (s : Cursor) : Except ParseError String × Cursor :=
  scanQuoted quote s.pos (s.rest.drop 1) (s.mark.past (s.rest.take 1)) []

end Stencil.Token
