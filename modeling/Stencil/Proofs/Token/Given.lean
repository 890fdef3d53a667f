import Stencil.Proofs.Token.Progress

namespace Stencil

open Cursor

namespace Position

-- Lines and columns are counted from one.
def Real (pos : Position) : Prop := 1 ≤ pos.line ∧ 1 ≤ pos.column

theorem Real.ne_zero {pos : Position} (h : pos.Real) : pos ≠ ⟨0, 0⟩ := by
  rintro rfl
  exact absurd h.1 (by simp)

end Position

theorem Mark.real_past {m : Mark} (h : m.pos.Real) (cs : List Char) : (m.past cs).pos.Real := by
  induction cs generalizing m with
  | nil => exact h
  | cons c cs ih =>
      rw [past_cons]
      apply ih
      obtain ⟨hline, hcolumn⟩ := h
      unfold after
      split
      · exact ⟨by simp, Nat.le_refl 1⟩
      · exact ⟨hline, Nat.le_trans hcolumn (Nat.le_add_right ..)⟩

namespace Lexer

-- What a lexer becomes by giving out tokens.
inductive Leads (l : Lexer) : Lexer → Prop
  | here : Leads l l
  | next {l' l'' : Lexer} {t : Token} (before : Leads l l') (given : l'.next = (.ok t, l'')) :
      Leads l l''

-- The token is one of those that the lexer gives out.
def Gives (l : Lexer) (t : Token) : Prop := ∃ l' l'', l.Leads l' ∧ l'.next = (.ok t, l'')

theorem codeToken_pos {l l' : Lexer} {c : Char} {t : Token} (h : codeToken l c = (.ok t, l')) :
    t.pos = l.pos := by
  simp only [codeToken] at h
  split at h
  · split at h
    · cases h
      rfl
    · cases h
  · split at h
    · split at h
      · cases h
        rfl
      · cases h
    · split at h
      · cases h
        unfold wordToken
        split <;> rfl
      · split at h
        · cases h
          rfl
        · cases h

-- A token stands where the cursor comes to.
theorem textStep_token {l l' : Lexer} {t : Token} (h : l.textStep = .done (.ok t) l') :
    ∃ s, Reaches l.cursor s ∧ t.pos = s.pos := by
  have hreach := scanText_reaches l.cursor.rest l.cursor.mark []
  simp only [textStep] at h
  generalize scanText l.cursor.rest l.cursor.mark [] = scanned at hreach h
  obtain ⟨text, s⟩ := scanned
  simp only at hreach h
  generalize (decide (s.rest.take 2 = ['<', '%']) && l.trim && aloneOnLine s) = alone at h
  generalize (if alone = true then text.dropWhile (· ≠ '\n') else text) = kept at h
  split at h
  · cases h
    exact ⟨l.cursor, .refl _, rfl⟩
  · split at h
    · cases h
    · cases h
      exact ⟨s, hreach, rfl⟩
    · cases h
      exact ⟨s, hreach, rfl⟩

theorem codeStep_token {l l' : Lexer} {t : Token} (h : l.codeStep = .done (.ok t) l') :
    ∃ s, Reaches l.cursor s ∧ t.pos = s.pos := by
  have hreach := skipTrivia_reaches .blank l.cursor.rest l.cursor.mark
  simp only [codeStep] at h
  split at h
  · cases h
  · rename_i s hskip
    rw [hskip] at hreach
    split at h
    · cases h
    · cases h
      exact ⟨s, hreach, rfl⟩
    · rename_i c r _ _
      cases hresult : codeToken { l with cursor := s } c with
      | mk result next =>
          rw [hresult] at h
          cases h
          exact ⟨s, hreach, codeToken_pos hresult⟩

theorem step_token {l l' : Lexer} {t : Token} (h : l.step = .done (.ok t) l') :
    ∃ s, Reaches l.cursor s ∧ t.pos = s.pos := by
  unfold step at h
  split at h
  · exact textStep_token h
  · exact codeStep_token h
  · exact codeStep_token h

theorem next_token {l l' : Lexer} {t : Token} (h : l.next = (.ok t, l')) :
    ∃ s, Reaches l.cursor s ∧ t.pos = s.pos := by
  induction l using next_induction with
  | done hstep =>
      cases h
      exact step_token hstep
  | more hstep ih =>
      rename_i l _
      have hreach := l.step_answers
      rw [hstep] at hreach
      obtain ⟨s, hs, hpos⟩ := ih h
      exact ⟨s, hreach.trans hs, hpos⟩

theorem Leads.reaches {l l' : Lexer} (h : l.Leads l') : Reaches l.cursor l'.cursor := by
  induction h with
  | here => exact .refl _
  | @next l' l'' t before given ih =>
      have hanswers := l'.next_answers
      rw [given] at hanswers
      exact ih.trans hanswers.reaches

-- Every token stands behind some beginning of the source.
theorem Gives.place {source : String} {trim : Bool} {t : Token}
    (h : (Lexer.start source trim).Gives t) :
    ∃ before after, source.toList = before ++ after ∧ t.pos = (Mark.start.past before).pos := by
  obtain ⟨l', l'', hleads, hnext⟩ := h
  obtain ⟨s, hreach, hpos⟩ := next_token hnext
  obtain ⟨taken, hover⟩ := hleads.reaches.trans hreach
  exact ⟨taken, s.rest, hover.rest, hpos.trans (congrArg Mark.pos hover.mark)⟩

theorem Gives.real {source : String} {trim : Bool} {t : Token}
    (h : (Lexer.start source trim).Gives t) : t.pos.Real := by
  obtain ⟨before, after, -, hpos⟩ := h.place
  rw [hpos]
  exact Mark.real_past ⟨Nat.le_refl 1, Nat.le_refl 1⟩ before

end Lexer

end Stencil
