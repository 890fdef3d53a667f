import Stencil.Proofs.Formula.Basic
import Stencil.Proofs.Template.Terminates

namespace Stencil

open Token

def BinaryOp.terminal : BinaryOp → Terminal
  | plus => .plus
  | minus => .minus
  | times => .star
  | divide => .slash
  | remainder => .percent
  | bitAnd => .bitAnd
  | bitOr => .bitOr
  | bitXor => .bitXor
  | shiftLeft => .shiftLeft
  | shiftRight => .shiftRight
  | shiftRightZero => .shiftRightZero
  | equal => .equal
  | notEqual => .notEqual
  | less => .less
  | lessEqual => .lessEqual
  | greater => .greater
  | greaterEqual => .greaterEqual
  | range => .dotDot

def UnaryOp.terminal : UnaryOp → Terminal
  | negative => .minus
  | not => .not
  | bitNot => .tilde

namespace Written

def terminal : Written → Terminal
  | name _ => .identifier
  | number _ => .integer
  | quoted _ => .string
  | bool true => .kwTrue
  | bool false => .kwFalse
  | null => .kwNull
  | binary op => op.terminal
  | unary op => op.terminal
  | and => .and
  | or => .or
  | dot => .dot
  | comma => .comma
  | leftParen => .leftParen
  | rightParen => .rightParen
  | leftBracket => .leftBracket
  | rightBracket => .rightBracket

def lexeme : Written → Lexeme
  | name x => .identifier x.text
  | number n => .literal (.int (Int64.ofNat n))
  | quoted s => .literal (.str s)
  | _ => .none

end Written

namespace Lexer

-- Inside a placeholder and outside of all braces.
def inside (trim trimAfter : Bool) (cs : List Char) (m : Mark) : Lexer :=
  ⟨⟨cs, m⟩, .placeholder 0, trim, trimAfter⟩

-- At a blank with this behind it, a lexer gives out the token and comes to the rest.
def Spells (cs : List Char) (terminal : Terminal) (lexeme : Lexeme) : Prop :=
  ∀ trim trimAfter rest m, ∃ pos m', next (inside trim trimAfter (' ' :: cs ++ ' ' :: rest) m) =
    (.ok ⟨terminal, lexeme, pos⟩, inside trim trimAfter (' ' :: rest) m')

-- Nothing is skipped before a character that begins no comment.
theorem skipTrivia_stop {c : Char} {r : List Char} (m : Mark) (hblank : Text.isBlank c = false)
    (hcomment : c = '/' → r.head? ≠ some '/' ∧ r.head? ≠ some '*') :
    skipTrivia .blank (' ' :: c :: r) m = (.ok (), ⟨c :: r, m.after ' '⟩) := by
  have hspace : Text.isBlank ' ' = true := by decide
  rw [skipTrivia, if_pos hspace]
  · by_cases hc : c = '/'
    · subst hc
      obtain ⟨hline, hblock⟩ := hcomment rfl
      cases r with
      | nil => rw [skipTrivia] <;> simp [hblank]
      | cons d r =>
          rw [skipTrivia, if_neg (by simp [hblank])]
          · rintro r' - heq
            exact hline (by simp_all)
          · rintro r' - heq
            exact hblock (by simp_all)
    · rw [skipTrivia, if_neg (by simp [hblank])]
      · rintro r' heq
        exact absurd heq hc
      · rintro r' heq
        exact absurd heq hc
  · simp
  · simp

-- One token of code is enough of a step.
theorem next_inside {trim trimAfter : Bool} {c : Char} {r : List Char} {m : Mark}
    (hblank : Text.isBlank c = false)
    (hcomment : c = '/' → r.head? ≠ some '/' ∧ r.head? ≠ some '*') :
    next (inside trim trimAfter (' ' :: c :: r) m) =
      codeToken (inside trim trimAfter (c :: r) (m.after ' ')) c := by
  have hskip := skipTrivia_stop m hblank hcomment
  have hstep : step (inside trim trimAfter (' ' :: c :: r) m) =
      .done (codeToken (inside trim trimAfter (c :: r) (m.after ' ')) c).1
        (codeToken (inside trim trimAfter (c :: r) (m.after ' ')) c).2 := by
    simp only [step, codeStep, inside, hskip]
  exact next_of_done hstep

-- What an operator or a punctuation mark has to be like.
structure Sign (cs : List Char) (terminal : Terminal) : Prop where
  first : ∃ c r, cs = c :: r ∧ Text.isBlank c = false ∧ (c = '/' → r = []) ∧ c.isDigit = false ∧
    c ≠ '\'' ∧ c ≠ '"' ∧ startsName c = false
  found : ∀ rest, Terminal.operators.find? (fun op => op.1.isPrefixOf (cs ++ ' ' :: rest)) =
    some (cs, terminal)
  mode : modeAfter (.placeholder 0) terminal = .placeholder 0

theorem Sign.spells {cs : List Char} {terminal : Terminal} (h : Sign cs terminal) :
    Spells cs terminal .none := by
  intro trim trimAfter rest m
  obtain ⟨c, r, rfl, hblank, hcomment, hdigit, hsingle, hdouble, hname⟩ := h.first
  have hfound := h.found rest
  simp only [startsName] at hname
  refine ⟨(m.after ' ').pos, ((m.after ' ').past (c :: r)), ?_⟩
  rw [List.cons_append, List.cons_append, next_inside hblank]
  · simp only [List.cons_append] at hfound
    simp only [codeToken, inside, hdigit, hsingle, hdouble, hname, hfound, h.mode, Cursor.pos,
      Cursor.skip, or_self, if_false, Bool.false_eq_true]
    simp
  · intro hc
    rw [hcomment hc]
    simp

-- Among the letters of ASCII the capitals come first.
theorem le_of_isAlpha {c : Char} (h : c.isAlpha = true) : 65 ≤ c.toNat := by
  have hranges : (decide (65 ≤ c.val ∧ c.val ≤ 90) || (97 ≤ c.val && c.val ≤ 122)) = true := h
  simp only [Bool.or_eq_true, Bool.and_eq_true, decide_eq_true_eq, UInt32.le_iff_toNat_le]
    at hranges
  have hcapital : (65 : UInt32).toNat = 65 := rfl
  have hsmall : (97 : UInt32).toNat = 97 := rfl
  rw [Char.toNat]
  omega

theorem isLetter_of_isBlank {c : Char} (h : Text.isBlank c = true) : Text.isLetter c = false := by
  have hapart : ∀ blank ∈ Text.blankRanges, ∀ letter ∈ Text.letterRanges,
      blank.2 < letter.1 ∨ letter.2 < blank.1 := by decide +kernel
  have hascii : ∀ blank ∈ Text.blankRanges, blank.1 < 0x80 → blank.2 ≤ 0x20 := by decide
  obtain ⟨blank, hblank, hle, hge⟩ := Text.inRanges_iff.mp h
  unfold Text.isLetter
  split
  · have hlow := hascii blank hblank (by omega)
    rw [Bool.eq_false_iff]
    intro halpha
    have hcapital := le_of_isAlpha halpha
    omega
  · rw [Bool.eq_false_iff]
    intro hletter
    obtain ⟨letter, hmem, hle', hge'⟩ := Text.inRanges_iff.mp hletter
    rcases hapart blank hblank letter hmem with h | h <;> omega

theorem isBlank_of_isDigit {c : Char} (h : c.isDigit = true) : Text.isBlank c = false := by
  have hapart : ∀ blank ∈ Text.blankRanges, blank.2 < 48 ∨ 57 < blank.1 := by decide
  rw [Bool.eq_false_iff]
  intro hblank
  obtain ⟨blank, hmem, hle, hge⟩ := Text.inRanges_iff.mp hblank
  simp only [Char.isDigit, Bool.and_eq_true, decide_eq_true_eq, UInt32.le_iff_toNat_le] at h
  have hzero : ('0'.val).toNat = 48 := rfl
  have hnine : ('9'.val).toNat = 57 := rfl
  rw [Char.toNat] at hle hge
  rcases hapart blank hmem with hlow | hhigh <;> omega

-- What starts a name starts nothing else.
structure Plain (c : Char) : Prop where
  blank : Text.isBlank c = false
  slash : c ≠ '/'
  digit : c.isDigit = false
  single : c ≠ '\''
  double : c ≠ '"'

theorem plain_of_startsName {c : Char} (h : startsName c = true) : Plain c := by
  have hne {d : Char} (hd : startsName d = false) : c ≠ d := by
    rintro rfl
    rw [h] at hd
    cases hd
  refine ⟨?_, hne (by decide), ?_, hne (by decide), hne (by decide)⟩
  · rw [Bool.eq_false_iff]
    intro hblank
    have hunderscore : c ≠ '_' := by
      rintro rfl
      revert hblank
      decide
    simp [startsName, isLetter_of_isBlank hblank, hunderscore] at h
  · rw [Bool.eq_false_iff]
    intro hdigit
    simp only [Char.isDigit, Bool.and_eq_true, decide_eq_true_eq, UInt32.le_iff_toNat_le] at hdigit
    have hnine : ('9'.val).toNat = 57 := rfl
    have hlow : c.toNat ≤ 57 := hnine ▸ hdigit.2
    have hascii : c.toNat < 0x80 := by omega
    simp only [startsName, Text.isLetter, if_pos hascii, Bool.or_eq_true, decide_eq_true_eq] at h
    rcases h with halpha | rfl
    · have hcapital := le_of_isAlpha halpha
      omega
    · exact absurd hdigit (by decide)

theorem takeWhile_blank {p : Char → Bool} {cs : List Char} (hall : cs.all p = true)
    (hstop : p ' ' = false) (rest : List Char) (m : Mark) :
    Cursor.takeWhile ⟨cs ++ ' ' :: rest, m⟩ p = (cs, ⟨' ' :: rest, m.past cs⟩) := by
  have htake : (cs ++ ' ' :: rest).takeWhile p = cs := by
    rw [List.takeWhile_append_of_pos (List.all_eq_true.mp hall)]
    simp [hstop]
  have hdrop : (cs ++ ' ' :: rest).dropWhile p = ' ' :: rest := by
    rw [List.dropWhile_append_of_pos (List.all_eq_true.mp hall)]
    simp [hstop]
  simp only [Cursor.takeWhile, htake, hdrop]

-- A word is read as a whole.
theorem next_word (trim trimAfter : Bool) {cs : List Char} (rest : List Char) (m : Mark)
    (hstarts : cs.head?.any startsName = true) (hcontinues : cs.all continuesName = true) :
    next (inside trim trimAfter (' ' :: cs ++ ' ' :: rest) m) =
      (.ok (wordToken (String.ofList cs) (m.after ' ').pos),
        inside trim trimAfter (' ' :: rest) ((m.after ' ').past cs)) := by
  have hread := takeWhile_blank hcontinues (by decide) rest (m.after ' ')
  cases cs with
  | nil => cases hstarts
  | cons c r =>
      have hc : startsName c = true := hstarts
      obtain ⟨hblank, hslash, hdigit, hsingle, hdouble⟩ := plain_of_startsName hc
      rw [List.cons_append, List.cons_append, next_inside hblank (absurd · hslash)]
      have hpart : (fun c => Text.isLetterOrNumeral c || decide (c = '_')) = continuesName := rfl
      simp only [List.cons_append] at hread
      simp only [startsName] at hc
      simp only [codeToken, inside, hdigit, hsingle, hdouble, hc, hpart, hread, Cursor.pos, or_self,
        if_false, Bool.false_eq_true, if_true]

theorem spells_identifier (x : Identifier) :
    Spells x.text.toList .identifier (.identifier x.text) := by
  intro trim trimAfter rest m
  have hread := next_word trim trimAfter rest m x.starts x.continues
  simp only [String.ofList_toList, wordToken, x.free] at hread
  exact ⟨_, _, hread⟩

theorem spells_keyword {word : String} {terminal : Terminal}
    (hstarts : word.toList.head?.any startsName = true)
    (hcontinues : word.toList.all continuesName = true)
    (hkeyword : Terminal.keywords.lookup word = some terminal) :
    Spells word.toList terminal .none := by
  intro trim trimAfter rest m
  have hread := next_word trim trimAfter rest m hstarts hcontinues
  simp only [String.ofList_toList, wordToken, hkeyword] at hread
  exact ⟨_, _, hread⟩

-- Decimal digits are not taken for hexadecimal ones.
theorem scanNumber_decimal {cs : List Char} (hdigits : cs.all Char.isDigit = true)
    (rest : List Char) (m : Mark) :
    scanNumber ⟨cs ++ ' ' :: rest, m⟩ = scanDecimal ⟨cs ++ ' ' :: rest, m⟩ := by
  simp only [scanNumber]
  split
  · rename_i x tail heq
    refine if_neg ?_
    have hx : x = ' ' ∨ x.isDigit = true := by
      rcases cs with _ | ⟨zero, _ | ⟨d, more⟩⟩
      · cases heq
      · exact .inl (List.cons.inj (List.cons.inj heq).2).1.symm
      · obtain rfl : d = x := (List.cons.inj (List.cons.inj heq).2).1
        exact .inr (by simp_all)
    rintro (rfl | rfl) <;> exact absurd hx (by decide)
  · rfl

theorem scanDecimal_digits {cs : List Char} (hdigits : cs.all Char.isDigit = true)
    (rest : List Char) (m : Mark) :
    scanDecimal ⟨cs ++ ' ' :: rest, m⟩ =
      (integerOf cs (int64? (Number.ofDigits cs)), ⟨' ' :: rest, m.past cs⟩) := by
  have hread := takeWhile_blank hdigits (by decide) rest m
  simp [scanDecimal, hread, scanFraction, scanExponent]

theorem spells_number (n : Fin (2 ^ 63)) :
    Spells (toString n.val).toList .integer (.literal (.int (Int64.ofNat n))) := by
  intro trim trimAfter rest m
  have hdigits : (Nat.toDigits 10 n).all Char.isDigit = true := by
    rw [List.all_eq_true]
    exact fun c hc => Nat.isDigit_of_mem_toDigits (by omega) (by omega) hc
  have hvalue : Number.ofDigits (Nat.toDigits 10 n) = n :=
    Nat.ofDigitChars_toDigits (by omega) (by omega)
  have hint : int64? n.val = some (Int64.ofNat n) := by
    have hmax : Int64.maxValue.toInt = 2 ^ 63 - 1 := by decide
    have hsmall := n.isLt
    rw [int64?, if_pos (by omega)]
    rfl
  have hspelled : (toString n.val).toList = Nat.toDigits 10 n := by
    simp [Nat.repr]
  rw [hspelled]
  have hne := Nat.toDigits_ne_nil (n := n.val) (b := 10)
  generalize Nat.toDigits 10 n.val = cs at hdigits hvalue hne
  have hnumber := scanNumber_decimal hdigits rest (m.after ' ')
  rw [scanDecimal_digits hdigits, hvalue, hint] at hnumber
  cases cs with
  | nil => exact absurd rfl hne
  | cons c r =>
      have hc : c.isDigit = true := by simp_all
      have hne {d : Char} (hd : d.isDigit = false) : c ≠ d := by
        rintro rfl
        rw [hc] at hd
        cases hd
      rw [List.cons_append, List.cons_append,
        next_inside (isBlank_of_isDigit hc) (absurd · (hne (by decide)))]
      simp only [List.cons_append] at hnumber
      simp only [codeToken, inside, hc, hnumber, if_true, integerOf, Cursor.pos]
      exact ⟨_, _, rfl⟩

-- What is between the quotes is read back character by character.
theorem scanQuoted_escaped (opening : Position) (cs rest : List Char) (m : Mark)
    (done : List Char) :
    ∃ m', scanQuoted '"' opening (cs.flatMap escapeChar ++ '"' :: rest) m done =
      (.ok (String.ofList (done.reverse ++ cs)), ⟨rest, m'⟩) := by
  induction cs generalizing m done with
  | nil => exact ⟨m.after '"', by simp [scanQuoted]⟩
  | cons c cs ih =>
      by_cases hc : c = '"' ∨ c = '\\'
      · obtain ⟨m', hrest⟩ := ih (m.past ['\\', c]) (c :: done)
        rw [List.reverse_cons, List.append_assoc, List.singleton_append] at hrest
        refine ⟨m', ?_⟩
        rw [List.flatMap_cons, escapeChar, if_pos hc]
        simp only [List.cons_append, List.nil_append]
        rcases hc with rfl | rfl
        · rw [scanQuoted]
          · exact hrest
          all_goals simp
        · rw [scanQuoted]
          · exact hrest
          all_goals simp
      · obtain ⟨m', hrest⟩ := ih (m.after c) (c :: done)
        rw [List.reverse_cons, List.append_assoc, List.singleton_append] at hrest
        refine ⟨m', ?_⟩
        rw [List.flatMap_cons, escapeChar, if_neg hc]
        simp only [not_or] at hc
        simp only [List.cons_append, List.nil_append]
        rw [scanQuoted, if_neg hc.1]
        · exact hrest
        all_goals simp [hc]

theorem spells_quoted (s : String) :
    Spells ('"' :: s.toList.flatMap escapeChar ++ ['"']) .string (.literal (.str s)) := by
  intro trim trimAfter rest m
  obtain ⟨m', hread⟩ :=
    scanQuoted_escaped (m.after ' ').pos s.toList (' ' :: rest) ((m.after ' ').after '"') []
  simp only [List.append_assoc, List.cons_append, List.nil_append]
  rw [next_inside (by decide) (by simp)]
  have hdigit : '"'.isDigit = false := by decide
  simp only [List.reverse_nil, List.nil_append, String.ofList_toList] at hread
  refine ⟨(m.after ' ').pos, m', ?_⟩
  simp only [codeToken, inside, hdigit, scanString, Cursor.pos, List.drop_succ_cons, List.drop_zero,
    List.take_succ_cons, List.take_zero, Mark.past_cons, Mark.past_nil, hread]
  simp

end Lexer

open Lexer

namespace Written

theorem sign_binary (op : BinaryOp) : Sign op.symbol.toList op.terminal where
  first := by
    cases op <;>
      exact ⟨_, _, rfl, by decide, by decide, by decide, by decide, by decide, by decide⟩
  found rest := by cases op <;> rfl
  mode := by cases op <;> rfl

theorem sign_unary (op : UnaryOp) : Sign op.symbol.toList op.terminal where
  first := by
    cases op <;>
      exact ⟨_, _, rfl, by decide, by decide, by decide, by decide, by decide, by decide⟩
  found rest := by cases op <;> rfl
  mode := by cases op <;> rfl

-- Every token is read back as it is written.
theorem spells (w : Written) : Spells w.spelling.toList w.terminal w.lexeme := by
  cases w with
  | name x => exact spells_identifier x
  | number n => exact spells_number n
  | quoted s =>
      rw [spelling, String.toList_ofList]
      exact spells_quoted s
  | bool b => cases b <;> exact spells_keyword (by decide) (by decide) (by decide)
  | null => exact spells_keyword (by decide) (by decide) (by decide)
  | binary op => exact (sign_binary op).spells
  | unary op => exact (sign_unary op).spells
  | _ =>
      refine Sign.spells ⟨⟨_, _, rfl, ?_⟩, fun rest => rfl, rfl⟩
      exact ⟨by decide, by decide, by decide, by decide, by decide, by decide⟩

end Written

namespace Lexer

-- The brace that closes a placeholder ends its code.
theorem next_closing (trim trimAfter : Bool) (m : Mark) :
    next (inside trim trimAfter [' ', '\x7d'] m) =
      (.ok ⟨.rightBrace, .none, (m.after ' ').pos⟩,
        ⟨⟨[], (m.after ' ').after '\x7d'⟩, .text, trim, trimAfter⟩) := by
  rw [next_inside (by decide) (by decide)]
  rfl

theorem next_end (trim trimAfter : Bool) (m : Mark) :
    next ⟨⟨[], m⟩, .text, trim, trimAfter⟩ =
      (.ok ⟨.endOfInput, .none, m.pos⟩, ⟨⟨[], m⟩, .text, trim, trimAfter⟩) := by
  simp [next, run, step, textStep, scanText, endToken, Cursor.pos]

theorem next_opening (trim : Bool) (rest : List Char) :
    next ⟨⟨'$' :: '\x7b' :: rest, .start⟩, .text, trim, false⟩ =
      (.ok ⟨.placeholder, .none, ⟨1, 1⟩⟩,
        inside trim false rest ((Mark.start.after '$').after '\x7b')) := by
  simp [next, run, step, textStep, scanText, Cursor.pos, Cursor.skip, inside, Mark.start]

end Lexer

end Stencil
