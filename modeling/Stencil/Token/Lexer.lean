import Stencil.Text.Letter
import Stencil.Text.Utf8
import Stencil.Token.Quoted

namespace Stencil

open Token

-- The bytes that a look-ahead through code minds. All other characters take none of them.
namespace Byte

@[match_pattern] abbrev newline : UInt8 := 0x0a
@[match_pattern] abbrev doubleQuote : UInt8 := 0x22
@[match_pattern] abbrev percent : UInt8 := 0x25
@[match_pattern] abbrev singleQuote : UInt8 := 0x27
@[match_pattern] abbrev asterisk : UInt8 := 0x2a
@[match_pattern] abbrev slash : UInt8 := 0x2f
@[match_pattern] abbrev greater : UInt8 := 0x3e
@[match_pattern] abbrev backslash : UInt8 := 0x5c

end Byte

-- A source is text with code blocks and placeholders in between. Inside a placeholder the number
-- of braces that are still open is kept.
inductive Mode where
  | text
  | code
  | placeholder (depth : Nat)
  deriving Repr, DecidableEq

structure Lexer where
  cursor : Cursor
  mode : Mode
  -- Whether lines that hold nothing but one code block are dropped.
  trim : Bool
  -- Whether the rest of the line is dropped once the current code block closes.
  trimAfter : Bool
  deriving Repr

namespace Lexer

def start (source : String) (trim : Bool) : Lexer :=
  ⟨⟨source.toList, .start⟩, .text, trim, false⟩

def pos (l : Lexer) : Position := l.cursor.pos

-- The end of input is a token, given out as often as it is asked for.
def endToken (s : Cursor) : Token := ⟨.endOfInput, .none, s.pos⟩

-- Reads text up to the next delimiter, in reverse. A backslash makes the delimiter after it
-- ordinary text.
def scanText : List Char → Mark → List Char → List Char × Cursor
  | [], m, done => (done, ⟨[], m⟩)
  | '\\' :: '<' :: '%' :: r, m, done => scanText r (m.past ['\\', '<', '%']) ('%' :: '<' :: done)
  | '\\' :: '$' :: '\x7b' :: r, m, done =>
    scanText r (m.past ['\\', '$', '\x7b']) ('\x7b' :: '$' :: done)
  | '<' :: '%' :: r, m, done => (done, ⟨'<' :: '%' :: r, m⟩)
  | '$' :: '\x7b' :: r, m, done => (done, ⟨'$' :: '\x7b' :: r, m⟩)
  | c :: r, m, done => scanText r (m.after c) (c :: done)

theorem scanText_length_le (r : List Char) (m : Mark) (done : List Char) :
    (scanText r m done).2.rest.length ≤ r.length := by
  fun_induction scanText r m done <;> simp only [List.length_cons] at * <;> omega

-- What a look-ahead through code is inside of.
inductive Region (α : Type) where
  | code
  | lineComment
  | blockComment
  | quoted (quote : α)

section

open Byte

-- Where the current code block is closed, as the number of bytes before the place behind its `%>`.
-- Strings and comments are passed over byte by byte.
def codeEnd : Region UInt8 → Nat → List UInt8 → Option Nat
  | _, _, [] => none
  | .code, i, percent :: greater :: _ => some (i + 2)
  | .code, i, slash :: slash :: r => codeEnd .lineComment (i + 2) r
  | .code, i, slash :: asterisk :: r => codeEnd .blockComment (i + 2) r
  | .code, i, b :: r =>
    if b = singleQuote ∨ b = doubleQuote then codeEnd (.quoted b) (i + 1) r
    else codeEnd .code (i + 1) r
  | .lineComment, i, percent :: greater :: _ => some (i + 2)
  | .lineComment, i, b :: r =>
    if b = newline then codeEnd .code (i + 1) r else codeEnd .lineComment (i + 1) r
  | .blockComment, i, asterisk :: slash :: r => codeEnd .code (i + 2) r
  | .blockComment, i, _ :: r => codeEnd .blockComment (i + 1) r
  | .quoted quote, i, backslash :: _ :: r => codeEnd (.quoted quote) (i + 2) r
  | .quoted quote, i, b :: r =>
    if b = quote then codeEnd .code (i + 1) r else codeEnd (.quoted quote) (i + 1) r

end

-- Whether the code block that opens here has its line for itself: only blanks before it and
-- after the place where it closes.
def aloneOnLine (s : Cursor) : Bool :=
  s.mark.blankSoFar &&
    match codeEnd .code 2 ((Text.encodeChars s.rest).drop 2) with
    | some i => ((Text.dropBytes i s.rest).takeWhile (· ≠ '\n')).all Text.isBlank
    | none => false

-- Drops blanks through the end of the line.
def skipBlankLine : List Char → Mark → Cursor
  | [], m => ⟨[], m⟩
  | c :: r, m =>
    if c = '\n' then ⟨r, m.after c⟩
    else if Text.isBlank c then skipBlankLine r (m.after c)
    else ⟨c :: r, m⟩

theorem skipBlankLine_length_le (r : List Char) (m : Mark) :
    (skipBlankLine r m).rest.length ≤ r.length := by
  fun_induction skipBlankLine r m <;> simp only [List.length_cons] at * <;> omega

-- What is skipped between two tokens of code.
inductive Trivia where
  | blank
  | lineComment
  | blockComment (opening : Position)

-- Passes over blanks and comments. A line comment also ends before `%>`.
def skipTrivia : Trivia → List Char → Mark → Except ParseError Unit × Cursor
  | .blockComment opening, [], m => (.error ⟨opening, .unterminatedComment⟩, ⟨[], m⟩)
  | _, [], m => (.ok (), ⟨[], m⟩)
  | .blank, '/' :: '/' :: r, m => skipTrivia .lineComment r (m.past ['/', '/'])
  | .blank, '/' :: '*' :: r, m => skipTrivia (.blockComment m.pos) r (m.past ['/', '*'])
  | .blank, c :: r, m =>
    if Text.isBlank c then skipTrivia .blank r (m.after c) else (.ok (), ⟨c :: r, m⟩)
  | .lineComment, '%' :: '>' :: r, m => (.ok (), ⟨'%' :: '>' :: r, m⟩)
  | .lineComment, c :: r, m =>
    if c = '\n' then skipTrivia .blank r (m.after c) else skipTrivia .lineComment r (m.after c)
  | .blockComment _, '*' :: '/' :: r, m => skipTrivia .blank r (m.past ['*', '/'])
  | .blockComment opening, c :: r, m => skipTrivia (.blockComment opening) r (m.after c)

theorem skipTrivia_length_le (trivia : Trivia) (r : List Char) (m : Mark) :
    (skipTrivia trivia r m).2.rest.length ≤ r.length := by
  fun_induction skipTrivia trivia r m <;> simp only [List.length_cons] at * <;> omega

-- A step of the lexer ends in a token or a fault, or only changes the mode.
inductive Step where
  | done (result : Except ParseError Token) (next : Lexer)
  | more (next : Lexer)

-- Gives out the text before the next delimiter, or steps over the delimiter.
def textStep (l : Lexer) : Step :=
  let (text, s) := scanText l.cursor.rest l.cursor.mark []
  let alone := s.rest.take 2 = ['<', '%'] && l.trim && aloneOnLine s
  let text := if alone then text.dropWhile (· ≠ '\n') else text
  let l' : Lexer := { l with cursor := s, trimAfter := l.trimAfter || alone }
  if !text.isEmpty then
    .done (.ok ⟨.text, .text (String.ofList text.reverse), l.pos⟩) l'
  else match s.rest with
    | '<' :: '%' :: _ => .more { l' with cursor := s.skip 2, mode := .code }
    | '$' :: '\x7b' :: _ =>
      .done (.ok ⟨.placeholder, .none, s.pos⟩)
        { l' with cursor := s.skip 2, mode := .placeholder 0 }
    | _ => .done (.ok (endToken s)) l'

-- A step that gives out no token passes a delimiter.
theorem textStep_shorter {l l' : Lexer} (h : l.textStep = .more l') :
    l'.cursor.rest.length < l.cursor.rest.length := by
  have hscan := scanText_length_le l.cursor.rest l.cursor.mark []
  simp only [textStep] at h
  generalize scanText l.cursor.rest l.cursor.mark [] = scanned at hscan h
  obtain ⟨text, s⟩ := scanned
  generalize (decide (s.rest.take 2 = ['<', '%']) && l.trim && aloneOnLine s) = alone at h
  generalize (if alone = true then text.dropWhile (· ≠ '\n') else text) = kept at h
  simp only at hscan h
  split at h
  · cases h
  · split at h
    · rename_i hrest
      cases h
      simp only [hrest, Cursor.skip, List.drop_succ_cons, List.drop_zero, List.length_cons]
        at hscan ⊢
      omega
    · cases h
    · cases h

def wordToken (word : String) (pos : Position) : Token :=
  match Terminal.keywords.lookup word with
  | some terminal => ⟨terminal, .none, pos⟩
  | none => ⟨.identifier, .identifier word, pos⟩

-- The brace that closes a placeholder ends its code.
def modeAfter : Mode → Terminal → Mode
  | .placeholder depth, .leftBrace => .placeholder (depth + 1)
  | .placeholder 0, .rightBrace => .text
  | .placeholder (depth + 1), .rightBrace => .placeholder depth
  | mode, _ => mode

-- Reads one token of code that starts with the character at the cursor.
def codeToken (l : Lexer) (c : Char) : Except ParseError Token × Lexer :=
  let s := l.cursor
  if c.isDigit then
    match scanNumber s with
    | (.ok (terminal, value), s') =>
      (.ok ⟨terminal, .literal value, s.pos⟩, { l with cursor := s' })
    | (.error fault, s') => (.error ⟨s.pos, fault⟩, { l with cursor := s' })
  else if c = '\'' ∨ c = '"' then
    match scanString c s with
    | (.ok value, s') => (.ok ⟨.string, .literal (.str value), s.pos⟩, { l with cursor := s' })
    | (.error e, s') => (.error e, { l with cursor := s' })
  else if Text.isLetter c || c = '_' then
    let (word, s') := s.takeWhile fun c => Text.isLetterOrNumeral c || c = '_'
    (.ok (wordToken (String.ofList word) s.pos), { l with cursor := s' })
  else
    match Terminal.operators.find? fun op => op.1.isPrefixOf s.rest with
    | some (spelling, terminal) =>
      (.ok ⟨terminal, .none, s.pos⟩,
        { l with cursor := s.skip spelling.length, mode := modeAfter l.mode terminal })
    | none => (.error ⟨s.pos, .illegalCharacter c⟩, l)

-- Gives out the next token of code, or steps over the end of the code block.
def codeStep (l : Lexer) : Step :=
  match skipTrivia .blank l.cursor.rest l.cursor.mark with
  | (.error e, s) => .done (.error e) { l with cursor := s }
  | (.ok (), s) =>
    match l.mode, s.rest with
    | .code, '%' :: '>' :: _ =>
      let s' := s.skip 2
      let s' := if l.trimAfter then skipBlankLine s'.rest s'.mark else s'
      .more { l with cursor := s', mode := .text, trimAfter := false }
    | _, [] => .done (.ok (endToken s)) { l with cursor := s }
    | _, c :: _ =>
      let (result, l') := codeToken { l with cursor := s } c
      .done result l'

theorem codeStep_shorter {l l' : Lexer} (h : l.codeStep = .more l') :
    l'.cursor.rest.length < l.cursor.rest.length := by
  have hskip := skipTrivia_length_le .blank l.cursor.rest l.cursor.mark
  simp only [codeStep] at h
  split at h
  · cases h
  · rename_i s hs
    rw [hs] at hskip
    split at h
    · rename_i r _ hrest
      have hblank := skipBlankLine_length_le (s.skip 2).rest (s.skip 2).mark
      cases h
      simp only [Cursor.skip, hrest, List.drop_succ_cons, List.drop_zero, List.length_cons]
        at hskip hblank ⊢
      split
      · omega
      · simp only
        omega
    · cases h
    · cases h

def step (l : Lexer) : Step :=
  match l.mode with
  | .text => l.textStep
  | .code | .placeholder _ => l.codeStep

theorem step_shorter {l l' : Lexer} (h : l.step = .more l') :
    l'.cursor.rest.length < l.cursor.rest.length := by
  unfold step at h
  split at h
  · exact textStep_shorter h
  · exact codeStep_shorter h
  · exact codeStep_shorter h

-- Steps until a token or a fault is given. Without fuel there is no answer.
def run : Nat → Lexer → Option (Except ParseError Token × Lexer)
  | 0, _ => none
  | fuel + 1, l =>
    match l.step with
    | .done result l' => some (result, l')
    | .more l' => run fuel l'

-- There are fewer steps to the next token than characters left.
theorem run_isSome {fuel : Nat} {l : Lexer} (h : l.cursor.rest.length < fuel) :
    (l.run fuel).isSome := by
  induction fuel generalizing l with
  | zero => omega
  | succ fuel ih =>
      rw [run]
      split
      · rfl
      · rename_i l' hmore
        have hshorter := step_shorter hmore
        exact ih (by omega)

-- The next token.
def next (l : Lexer) : Except ParseError Token × Lexer :=
  (l.run (l.cursor.rest.length + 1)).get (run_isSome (Nat.lt_succ_self _))

end Lexer

end Stencil
