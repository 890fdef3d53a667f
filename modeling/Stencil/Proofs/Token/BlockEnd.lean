import Mathlib.Logic.Relation
import Stencil.Proofs.Token.Bytes
import Stencil.Proofs.Token.Crossing
import Stencil.Proofs.Token.Segment

namespace Stencil.Lexer

open Text Cursor

-- One lexer becomes the other by a step, which gives out a token or not.
def Passes (l l' : Lexer) : Prop := l.step = .more l' ∨ ∃ result, l.step = .done result l'

abbrev Comes : Lexer → Lexer → Prop := Relation.ReflTransGen Passes

-- Where a code block ends, as the lexer finds it: token after token is read, until the delimiter
-- comes, or the source is over.
inductive BlockEnd : Lexer → Option Cursor → Prop
  | token {l l' : Lexer} {t : Token} {found : Option Cursor} (given : l.step = .done (.ok t) l')
      (more : t.terminal ≠ .endOfInput) (rest : BlockEnd l' found) : BlockEnd l found
  | closed {l l' : Lexer} (passed : l.step = .more l') :
      BlockEnd l (some ((skipTrivia .blank l.cursor.rest l.cursor.mark).2.skip 2))
  | ended {l l' : Lexer} {t : Token} (given : l.step = .done (.ok t) l')
      (last : t.terminal = .endOfInput) : BlockEnd l none

theorem Comes.reaches {l l' : Lexer} (h : Comes l l') : Reaches l.cursor l'.cursor := by
  induction h with
  | refl => exact .refl _
  | @tail l₁ l₂ _ hpasses ih =>
      have hanswers := l₁.step_answers
      rcases hpasses with hmore | ⟨result, hdone⟩
      · rw [hmore] at hanswers
        exact ih.trans hanswers
      · rw [hdone] at hanswers
        exact ih.trans hanswers.reaches

-- The step that the lexer would make if no lines were dropped.
theorem plain_of_done {l l' : Lexer} {result : Except ParseError Token}
    (h : l.codeStep = .done result l') :
    codeStep ⟨l.cursor, l.mode, false, false⟩ =
      .done result ⟨l'.cursor, l'.mode, false, false⟩ := by
  cases hplain : codeStep ⟨l.cursor, l.mode, false, false⟩ with
  | more next =>
      have hsame := (codeStep_more hplain).2.2.2 l.trim l.trimAfter
      rw [h] at hsame
      cases hsame
  | done result' next =>
      have hflags := (codeStep_done hplain).2
      have hsame := hflags l.trim l.trimAfter
      rw [h] at hsame
      cases hsame
      rw [← hplain, hflags false false]

theorem plain_of_more {l l' : Lexer} (h : l.codeStep = .more l') :
    ∃ next, codeStep ⟨l.cursor, l.mode, false, false⟩ = .more next := by
  cases hplain : codeStep ⟨l.cursor, l.mode, false, false⟩ with
  | more next => exact ⟨next, rfl⟩
  | done result next =>
      have hsame := (codeStep_done hplain).2 l.trim l.trimAfter
      rw [h] at hsame
      cases hsame

-- No token makes a difference to the look-ahead, which ends with the delimiter.
theorem BlockEnd.lookahead {l : Lexer} {found : Option Cursor} (h : BlockEnd l found)
    (hmode : l.mode = .code) : codeRest .code l.cursor.rest = found.map Cursor.rest := by
  induction h with
  | @token l l' t found given more rest ih =>
      rw [step, hmode] at given
      have hplain := plain_of_done given
      rw [hmode] at hplain
      have hlevel : codeRest .code l.cursor.rest = codeRest .code l'.cursor.rest :=
        (level_codeStep hplain).1 more
      rw [hlevel]
      exact ih ((codeStep_done hplain).1.mpr rfl)
  | @closed l l' passed =>
      rw [step, hmode] at passed
      obtain ⟨next, hplain⟩ := plain_of_more passed
      obtain ⟨-, hplace, hrest, -⟩ := codeStep_more hplain
      rw [hrest, hplace]
      rfl
  | @ended l l' t given last =>
      rw [step, hmode] at given
      have hplain := plain_of_done given
      rw [hmode] at hplain
      exact (level_codeStep hplain).2 last

-- Where text leads to code, it stops at the delimiter, and the code begins behind that.
theorem textStep_opens {l l' : Lexer} (h : l.textStep = .more l') :
    (behindText l.cursor).rest = '<' :: '%' :: l'.cursor.rest ∧ l'.mode = .code := by
  rw [textStep_eq] at h
  split at h
  · cases h
  · split at h
    · rename_i r hrest
      cases h
      simp [Cursor.skip, hrest]
    · cases h
    · cases h

-- Wherever a code block opens, the look-ahead by bytes ends right behind the delimiter that the
-- lexer closes the block with, and finds none where the lexer comes to the end of the source.
theorem codeEnd_finds_end (source : String) (trim : Bool) {l l' : Lexer}
    (hcomes : Comes (start source trim) l) (hmode : l.mode = .text) (hopens : l.step = .more l') :
    ∃ front, source.toList = front ++ '<' :: '%' :: l'.cursor.rest ∧
      (∀ s, BlockEnd l' (some s) → ∃ inside, l'.cursor.rest = inside ++ '%' :: '>' :: s.rest ∧
        codeEnd .code (byteLength front + 2) ((encodeUtf8 source).drop (byteLength front + 2)) =
          some (byteLength (front ++ '<' :: '%' :: inside ++ ['%', '>']))) ∧
      (BlockEnd l' none →
        codeEnd .code (byteLength front + 2) ((encodeUtf8 source).drop (byteLength front + 2)) =
          none) := by
  rw [step, hmode] at hopens
  obtain ⟨hopen, hcode⟩ := textStep_opens hopens
  obtain ⟨taken, hover⟩ := hcomes.reaches.trans ⟨_, over_behindText l.cursor⟩
  have hsource : source.toList = taken ++ '<' :: '%' :: l'.cursor.rest := by
    rw [← hopen]
    exact hover.rest
  have hlength : byteLength (taken ++ ['<', '%']) = byteLength taken + 2 := by
    rw [byteLength_append]
    rfl
  have hend := codeEnd_behind (taken ++ ['<', '%']) l'.cursor.rest
  rw [hlength, List.append_assoc, List.cons_append, List.singleton_append, ← hsource] at hend
  refine ⟨taken, hsource, fun s hblock => ?_, fun hblock => ?_⟩
  · have hrest := hblock.lookahead hcode
    obtain ⟨inside, hinside⟩ := codeRest_close hrest
    refine ⟨inside, hinside.symm, hend.trans ?_⟩
    have hbytes : byteLength source.toList =
        byteLength (taken ++ '<' :: '%' :: inside ++ ['%', '>']) + byteLength s.rest := by
      rw [hsource, ← hinside, ← byteLength_append]
      simp
    rw [hrest, hbytes]
    simp
  · rw [hblock.lookahead hcode] at hend
    exact hend

-- A string that an escaped quote and a delimiter stand in, and a comment.
def quotedBlock : List Char := ['\'', '\\', '\'', '%', '>', '\'', '/', '/', 'ä']

-- An escaped quote and a delimiter in a string, and a delimiter that ends a line comment. Of the
-- characters before it some take two bytes.
theorem codeEnd_finds_end_escaped :
    ∃ l l' s, Comes (start "é<%'\\'%>'//ä%>b" true) l ∧ l.mode = .text ∧ l.step = .more l' ∧
      BlockEnd l' (some s) ∧ s.rest = ['b'] ∧
      codeEnd .code 4 ((encodeUtf8 "é<%'\\'%>'//ä%>b").drop 4) = some 16 := by
  have hdelimiter : Passes (start "é<%'\\'%>'//ä%>b" true)
      ⟨⟨'<' :: '%' :: (quotedBlock ++ ['%', '>', 'b']), Mark.start.past ['é']⟩, .text, true,
        false⟩ :=
    .inr ⟨_, rfl⟩
  have hopens :
      step ⟨⟨'<' :: '%' :: (quotedBlock ++ ['%', '>', 'b']), Mark.start.past ['é']⟩, .text, true,
        false⟩ =
      .more ⟨⟨quotedBlock ++ ['%', '>', 'b'], Mark.start.past ['é', '<', '%']⟩, .code, true,
        false⟩ :=
    rfl
  have hblock : BlockEnd
      ⟨⟨quotedBlock ++ ['%', '>', 'b'], Mark.start.past ['é', '<', '%']⟩, .code, true, false⟩
      (some ⟨['b'], Mark.start.past ('é' :: '<' :: '%' :: (quotedBlock ++ ['%', '>']))⟩) :=
    .token rfl (by decide) (.closed rfl)
  obtain ⟨front, hsource, hclosed, -⟩ :=
    codeEnd_finds_end _ true (.single hdelimiter) rfl hopens
  have hfront : ['é'] ++ '<' :: '%' :: (quotedBlock ++ ['%', '>', 'b']) = front ++ _ := hsource
  obtain rfl := List.append_cancel_right hfront
  obtain ⟨inside, hinside, hend⟩ := hclosed _ hblock
  have hsame : quotedBlock ++ ['%', '>', 'b'] = inside ++ _ := hinside
  obtain rfl := List.append_cancel_right hsame
  exact ⟨_, _, _, .single hdelimiter, rfl, hopens, hblock, rfl, hend⟩

end Stencil.Lexer
