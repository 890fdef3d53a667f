import Stencil.Proofs.Token.Segment

namespace Stencil

open Text Cursor Token

-- What a token is written with. Text means what is left without the backslashes before its
-- delimiters; blanks at the end of its last line may be dropped, if blank lines are. A number or a
-- string is what is read off its characters, up to something that is no part of it.
inductive Spelling (trim : Bool) : Terminal → Lexeme → List Char → Prop
  | text {cs dropped s} (meaning : Lexer.unescape cs = s.toList ++ dropped)
      (blank : ∀ c ∈ dropped, isBlank c = true ∧ c ≠ '\n') (kept : trim = false → dropped = []) :
      Spelling trim .text (.text s) cs
  | placeholder : Spelling trim .placeholder .none ['$', '\x7b']
  | keyword {word t} (reserved : (word, t) ∈ Terminal.keywords) :
      Spelling trim t .none word.toList
  | identifier {name : String} (free : Terminal.keywords.lookup name = none) :
      Spelling trim .identifier (.identifier name) name.toList
  | operator {cs t} (listed : (cs, t) ∈ Terminal.operators) : Spelling trim t .none cs
  | number {cs rest m t v} (read : scanNumber ⟨cs ++ rest, m⟩ = (.ok (t, v), ⟨rest, m.past cs⟩)) :
      Spelling trim t (.literal v) cs
  | string {quote cs rest m s}
      (read : scanString quote ⟨cs ++ rest, m⟩ = (.ok s, ⟨rest, m.past cs⟩)) :
      Spelling trim .string (.literal (.str s)) cs

namespace Cursor

-- The mark of the cursor is that behind some beginning of a source.
def Marked (s : Cursor) : Prop := ∃ before, s.mark = Mark.start.past before

theorem Marked.over {s s' : Cursor} {taken : List Char} (h : s.Marked) (hover : Over s s' taken) :
    s'.Marked := by
  obtain ⟨before, hmark⟩ := h
  exact ⟨before ++ taken, by rw [hover.mark, hmark, Mark.past_append]⟩

end Cursor

namespace Lexer

-- A token that is read from one cursor up to another: some characters are passed over, and behind
-- them it is spelled.
structure Covers (trim : Bool) (s : Cursor) (t : Token) (s' : Cursor) (passed spelled : List Char) :
    Prop where
  rest : s.rest = passed ++ spelled ++ s'.rest
  mark : s'.mark = s.mark.past (passed ++ spelled)
  pos : t.pos = (s.mark.past passed).pos
  spelling : Spelling trim t.terminal t.lexeme spelled
  ne_nil : spelled ≠ []

theorem Covers.after {trim : Bool} {s s' s'' : Cursor} {t : Token}
    {front passed spelled : List Char} (h : Over s s' front) (hs : Covers trim s' t s'' passed spelled) :
    Covers trim s t s'' (front ++ passed) spelled where
  rest := by rw [h.rest, hs.rest]; simp only [List.append_assoc]
  mark := by rw [hs.mark, h.mark, ← Mark.past_append, List.append_assoc]
  pos := by rw [hs.pos, h.mark, ← Mark.past_append]
  spelling := hs.spelling
  ne_nil := hs.ne_nil

theorem covers_at {trim : Bool} {s s' : Cursor} {t : Token} {spelled : List Char}
    (h : Over s s' spelled) (hpos : t.pos = s.pos) (hne : spelled ≠ [])
    (hspelling : Spelling trim t.terminal t.lexeme spelled) : Covers trim s t s' [] spelled where
  rest := h.rest
  mark := h.mark
  pos := hpos
  spelling := hspelling
  ne_nil := hne

theorem wordToken_pos (word : String) (pos : Position) : (wordToken word pos).pos = pos := by
  unfold wordToken
  split <;> rfl

theorem wordToken_spelling (trim : Bool) (cs : List Char) (pos : Position) :
    Spelling trim (wordToken (String.ofList cs) pos).terminal
      (wordToken (String.ofList cs) pos).lexeme cs := by
  have hcs : (String.ofList cs).toList = cs := String.toList_ofList
  generalize String.ofList cs = word at hcs ⊢
  subst hcs
  unfold wordToken
  split
  · rename_i terminal hlookup
    obtain ⟨before, after, hsplit, -⟩ := List.lookup_eq_some_iff.mp hlookup
    refine .keyword ?_
    rw [hsplit]
    exact List.mem_append_right _ (List.mem_cons_self ..)
  · rename_i hlookup
    exact .identifier hlookup

theorem codeToken_covers {l l' : Lexer} {c : Char} {r : List Char} {t : Token}
    (hs : l.cursor.rest = c :: r) (h : codeToken l c = (.ok t, l')) (trim : Bool) :
    ∃ spelled, Covers trim l.cursor t l'.cursor [] spelled := by
  simp only [codeToken] at h
  split at h
  · rename_i hdigit
    have hread := scanNumber_reads hs hdigit
    split at h
    · rename_i terminal value s' hscan
      cases h
      rw [hscan] at hread
      obtain ⟨spelled, hne, hover⟩ := hread.moves
      have hspelled : scanNumber ⟨spelled ++ s'.rest, l.cursor.mark⟩ =
          (.ok (terminal, value), ⟨s'.rest, l.cursor.mark.past spelled⟩) := by
        rw [← hover.rest, ← hover.mark]
        exact hscan
      exact ⟨spelled, covers_at hover rfl hne (.number hspelled)⟩
    · cases h
  · split at h
    · have hmoves := @scanString_moves c l.cursor (by simp [hs])
      split at h
      · rename_i value s' hscan
        cases h
        rw [hscan] at hmoves
        obtain ⟨spelled, hne, hover⟩ := hmoves
        have hspelled : scanString c ⟨spelled ++ s'.rest, l.cursor.mark⟩ =
            (.ok value, ⟨s'.rest, l.cursor.mark.past spelled⟩) := by
          rw [← hover.rest, ← hover.mark]
          exact hscan
        exact ⟨spelled, covers_at hover rfl hne (.string hspelled)⟩
      · cases h
    · split at h
      · rename_i hletter
        cases h
        have hfirst : (isLetterOrNumeral c || c = '_') = true := by
          rcases Bool.or_eq_true_iff.mp hletter with hletter | hunderscore
          · rw [isLetterOrNumeral_of_isLetter hletter, Bool.true_or]
          · rw [hunderscore, Bool.or_true]
        refine ⟨(l.cursor.takeWhile fun c => isLetterOrNumeral c || c = '_').1,
          covers_at ⟨List.takeWhile_append_dropWhile.symm, rfl⟩ (wordToken_pos _ _) ?_
            (wordToken_spelling trim _ _)⟩
        simp [Cursor.takeWhile, hs, hfirst]
      · split at h
        · rename_i spelling terminal hfind
          cases h
          have hmem := List.mem_of_find?_eq_some hfind
          have hbegins : spelling <+: l.cursor.rest := by
            have hfound := List.find?_some hfind
            exact List.isPrefixOf_iff_prefix.mp hfound
          have htaken : l.cursor.rest.take spelling.length = spelling :=
            (List.prefix_iff_eq_take.mp hbegins).symm
          have hover := l.cursor.over_skip spelling.length
          rw [htaken] at hover
          exact ⟨spelling, covers_at hover rfl (Terminal.operators_spelled _ hmem)
            (.operator hmem)⟩
        · cases h

-- What is dropped in front of a block that stands alone is the blank beginning of its line.
theorem shownText_append {l : Lexer} (hmark : l.cursor.Marked) :
    ∃ dropped, unescape (segment l.cursor.rest) = l.shownText ++ dropped ∧
      (∀ c ∈ dropped, isBlank c = true ∧ c ≠ '\n') ∧ (l.trim = false → dropped = []) := by
  unfold shownText
  split
  · rename_i hdrops
    simp only [dropsLine, aloneOnLine, Bool.and_eq_true] at hdrops
    obtain ⟨before, hbefore⟩ := hmark
    have hsofar := hdrops.2.1
    rw [behindText, hbefore, ← Mark.past_append, Mark.blankSoFar_past_start,
      List.all_eq_true] at hsofar
    have hline : ∀ c ∈ lastLine (segment l.cursor.rest), isBlank c = true :=
      fun c hc => hsofar c ((lastLine_suffix before _).subset hc)
    refine ⟨lastLine (unescape (segment l.cursor.rest)), (fullLines_append_lastLine _).symm,
      fun c hc => ⟨?_, ?_⟩, fun htrim => absurd hdrops.1.2 (by simp [htrim])⟩
    · rw [(unescape_fullLines hline).2] at hc
      exact hline c hc
    · rintro rfl
      exact newline_notMem_lastLine _ hc
  · exact ⟨[], by simp⟩

theorem textStep_covers {l l' : Lexer} {t : Token} (h : l.textStep = .done (.ok t) l')
    (ht : t.terminal ≠ .endOfInput) (hmark : l.cursor.Marked) :
    ∃ passed spelled, Covers l.trim l.cursor t l'.cursor passed spelled := by
  have hover := over_behindText l.cursor
  obtain ⟨dropped, hmeaning, hblank, htrim⟩ := shownText_append hmark
  rw [textStep_eq] at h
  split at h
  · rename_i hsome
    cases h
    refine ⟨[], segment l.cursor.rest, covers_at hover rfl ?_ (.text ?_ hblank htrim)⟩
    · intro hnil
      rw [hnil] at hmeaning
      exact hsome (List.append_eq_nil_iff.mp hmeaning.symm).1
    · rw [hmeaning, String.toList_ofList]
  · split at h
    · cases h
    · rename_i r hrest
      cases h
      have hopened := (behindText l.cursor).over_skip 2
      rw [hrest] at hopened
      exact ⟨_, _, (covers_at hopened rfl (by simp) .placeholder).after hover⟩
    · cases h
      exact absurd rfl ht

theorem skipTrivia_over (cs : List Char) (m : Mark) :
    ∃ passed, Over ⟨cs, m⟩ (skipTrivia .blank cs m).2 passed := skipTrivia_reaches .blank cs m

theorem codeStep_covers {l l' : Lexer} {t : Token} (h : l.codeStep = .done (.ok t) l')
    (ht : t.terminal ≠ .endOfInput) :
    ∃ passed spelled, Covers l.trim l.cursor t l'.cursor passed spelled := by
  obtain ⟨passed, hover⟩ := skipTrivia_over l.cursor.rest l.cursor.mark
  simp only [codeStep] at h
  split at h
  · cases h
  · rename_i s hskip
    rw [hskip] at hover
    split at h
    · cases h
    · cases h
      exact absurd rfl ht
    · rename_i c r hrest _
      cases hresult : codeToken { l with cursor := s } c with
      | mk result next =>
          rw [hresult] at h
          cases h
          obtain ⟨spelled, hcovers⟩ := codeToken_covers hrest hresult l.trim
          exact ⟨_, spelled, hcovers.after hover⟩

theorem step_covers {l l' : Lexer} {t : Token} (h : l.step = .done (.ok t) l')
    (ht : t.terminal ≠ .endOfInput) (hmark : l.cursor.Marked) :
    ∃ passed spelled, Covers l.trim l.cursor t l'.cursor passed spelled := by
  unfold step at h
  split at h
  · exact textStep_covers h ht hmark
  · exact codeStep_covers h ht
  · exact codeStep_covers h ht

-- Reading changes nothing about whether blank lines are dropped.
theorem codeToken_trim (l : Lexer) (c : Char) : (codeToken l c).2.trim = l.trim := by
  simp only [codeToken]
  split
  · split <;> rfl
  · split
    · split <;> rfl
    · split
      · rfl
      · split <;> rfl

def Step.lexer : Step → Lexer
  | .done _ next => next
  | .more next => next

theorem codeStep_trim (l : Lexer) : l.codeStep.lexer.trim = l.trim := by
  simp only [codeStep]
  split
  · rfl
  · split
    · rfl
    · rfl
    · exact codeToken_trim _ _

theorem step_trim (l : Lexer) : l.step.lexer.trim = l.trim := by
  unfold step
  split
  · rw [textStep_eq]
    split
    · rfl
    · split <;> rfl
  · exact l.codeStep_trim
  · exact l.codeStep_trim

theorem next_trim (l : Lexer) : l.next.2.trim = l.trim := by
  induction l using next_induction with
  | done hstep =>
      rename_i l _ _
      have htrim := l.step_trim
      rw [hstep] at htrim
      exact htrim
  | more hstep ih =>
      rename_i l _
      have htrim := l.step_trim
      rw [hstep] at htrim
      exact ih.trans htrim

theorem next_covers {l l' : Lexer} {t : Token} (h : l.next = (.ok t, l'))
    (ht : t.terminal ≠ .endOfInput) (hmark : l.cursor.Marked) :
    ∃ passed spelled, Covers l.trim l.cursor t l'.cursor passed spelled := by
  induction l using next_induction with
  | done hstep =>
      cases h
      exact step_covers hstep ht hmark
  | more hstep ih =>
      rename_i l l₁
      have hreach := l.step_answers
      rw [hstep] at hreach
      obtain ⟨front, hover⟩ := hreach
      obtain ⟨passed, spelled, hcovers⟩ := ih h (hmark.over hover)
      have htrim := l.step_trim
      rw [hstep] at htrim
      rw [show l₁.trim = l.trim from htrim] at hcovers
      exact ⟨_, spelled, hcovers.after hover⟩

end Lexer

end Stencil
