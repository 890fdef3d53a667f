import Stencil.Proofs.Source.Line
import Stencil.Proofs.Token.Progress

namespace Stencil.Lexer

open Text

-- The text at the front of a source, up to a delimiter without a backslash before it.
@[simp] def segment : List Char → List Char
  | [] => []
  | '\\' :: '<' :: '%' :: r => '\\' :: '<' :: '%' :: segment r
  | '\\' :: '$' :: '\x7b' :: r => '\\' :: '$' :: '\x7b' :: segment r
  | '<' :: '%' :: _ => []
  | '$' :: '\x7b' :: _ => []
  | c :: r => c :: segment r

-- What stands behind it: nothing, or a delimiter.
@[simp] def behindSegment : List Char → List Char
  | [] => []
  | '\\' :: '<' :: '%' :: r => behindSegment r
  | '\\' :: '$' :: '\x7b' :: r => behindSegment r
  | '<' :: '%' :: r => '<' :: '%' :: r
  | '$' :: '\x7b' :: r => '$' :: '\x7b' :: r
  | _ :: r => behindSegment r

-- What text means: a backslash before a delimiter is taken away.
@[simp] def unescape : List Char → List Char
  | [] => []
  | '\\' :: '<' :: '%' :: r => '<' :: '%' :: unescape r
  | '\\' :: '$' :: '\x7b' :: r => '$' :: '\x7b' :: unescape r
  | c :: r => c :: unescape r

theorem segment_append_behind (cs : List Char) : segment cs ++ behindSegment cs = cs := by
  fun_induction segment cs with
  | case6 c r h₁ h₂ h₃ h₄ ih =>
      rw [behindSegment, List.cons_append, ih]
      · exact h₁
      · exact h₂
      · exact h₃
      · exact h₄
  | _ => simp_all [behindSegment]

-- A delimiter in it has a backslash before it.
theorem segment_ne_opening (cs r : List Char) : segment cs ≠ '<' :: '%' :: r := by
  intro h
  have hsplit := segment_append_behind cs
  rw [h] at hsplit
  generalize behindSegment cs = rest at hsplit
  subst hsplit
  simp [segment] at h

theorem segment_ne_placeholder (cs r : List Char) : segment cs ≠ '$' :: '\x7b' :: r := by
  intro h
  have hsplit := segment_append_behind cs
  rw [h] at hsplit
  generalize behindSegment cs = rest at hsplit
  subst hsplit
  simp [segment] at h

theorem scanText_eq (cs : List Char) (m : Mark) (done : List Char) :
    scanText cs m done =
      ((unescape (segment cs)).reverse ++ done, ⟨behindSegment cs, m.past (segment cs)⟩) := by
  fun_induction scanText cs m done with
  | case6 c r m done h₁ h₂ h₃ h₄ ih =>
      have hplain : unescape (c :: segment r) = c :: unescape (segment r) := by
        rw [unescape]
        · exact fun r' _ h => segment_ne_opening r r' h
        · exact fun r' _ h => segment_ne_placeholder r r' h
      rw [ih, segment, behindSegment, hplain]
      · simp
      all_goals assumption
  | _ => simp_all [segment, behindSegment, unescape, Mark.past]

-- Behind it the source is over, or a delimiter stands there.
theorem behindSegment_cases (cs : List Char) :
    behindSegment cs = [] ∨ (∃ r, behindSegment cs = '<' :: '%' :: r) ∨
      ∃ r, behindSegment cs = '$' :: '\x7b' :: r := by
  fun_induction behindSegment cs with
  | case1 => exact .inl rfl
  | case4 r => exact .inr (.inl ⟨r, rfl⟩)
  | case5 r => exact .inr (.inr ⟨r, rfl⟩)
  | case2 r ih => exact ih
  | case3 r ih => exact ih
  | case6 c r _ _ _ _ ih => exact ih

-- No delimiter reaches over the end of a line.
theorem unescape_newline (cs ds : List Char) :
    unescape (cs ++ '\n' :: ds) = unescape cs ++ '\n' :: unescape ds := by
  fun_induction unescape cs with
  | case1 => simp [unescape]
  | case2 r ih => simp [unescape, ih]
  | case3 r ih => simp [unescape, ih]
  | case4 c r h₁ h₂ ih =>
      rw [List.cons_append, unescape, ih, List.cons_append]
      · rintro r' rfl h
        rcases r with _ | ⟨a, _ | ⟨b, r⟩⟩ <;> simp_all
      · rintro r' rfl h
        rcases r with _ | ⟨a, _ | ⟨b, r⟩⟩ <;> simp_all

theorem unescape_of_blank {cs : List Char} (h : ∀ c ∈ cs, isBlank c = true) :
    unescape cs = cs := by
  fun_induction unescape cs with
  | case1 => rfl
  | case2 r ih => exact absurd (h '\\' (by simp)) (by decide)
  | case3 r ih => exact absurd (h '\\' (by simp)) (by decide)
  | case4 c r h₁ h₂ ih => rw [ih (List.forall_mem_cons.mp h).2]

-- A blank last line has nothing to take away.
theorem unescape_fullLines {cs : List Char} (h : ∀ c ∈ lastLine cs, isBlank c = true) :
    unescape cs = unescape (fullLines cs) ++ lastLine cs ∧
      lastLine (unescape cs) = lastLine cs := by
  have hsplit := fullLines_append_lastLine cs
  have hline := newline_notMem_lastLine cs
  have hblank := unescape_of_blank h
  rcases fullLines_cases cs with hfull | ⟨body, hfull⟩
  · rw [hfull, List.nil_append] at hsplit
    rw [hsplit] at hblank
    rw [hfull, hblank, hsplit]
    exact ⟨rfl, rfl⟩
  · have heq : unescape cs = unescape (fullLines cs) ++ lastLine cs := by
      conv_lhs => rw [← hsplit, hfull]
      rw [List.append_assoc, List.singleton_append, unescape_newline, hblank, hfull,
        unescape_newline]
      simp [unescape]
    refine ⟨heq, ?_⟩
    rw [heq, hfull, unescape_newline, lastLine_append hline]
    simp [unescape]

theorem skipBlankLine_eq (cs : List Char) (m : Mark) :
    skipBlankLine cs m = ⟨dropBlankStart cs, m.past (blankStart cs)⟩ := by
  induction cs generalizing m with
  | nil => rfl
  | cons c r ih =>
      simp only [skipBlankLine, dropBlankStart, blankStart]
      split
      · rfl
      · split
        · exact ih _
        · rfl

-- Blanks at the front are text like any other: they stay with it, and no delimiter begins in them.
theorem segment_blank {c : Char} (hc : isBlank c = true) (r : List Char) :
    segment (c :: r) = c :: segment r := by
  rw [segment]
  all_goals
    rintro r' rfl
    exact absurd hc (by decide)

theorem behindSegment_blank {c : Char} (hc : isBlank c = true) (r : List Char) :
    behindSegment (c :: r) = behindSegment r := by
  rw [behindSegment]
  all_goals
    rintro r' rfl
    exact absurd hc (by decide)

theorem unescape_blank {c : Char} (hc : isBlank c = true) (r : List Char) :
    unescape (c :: r) = c :: unescape r := by
  rw [unescape]
  all_goals
    rintro r' rfl
    exact absurd hc (by decide)

theorem behindSegment_dropBlankStart (cs : List Char) :
    behindSegment (dropBlankStart cs) = behindSegment cs := by
  induction cs with
  | nil => rfl
  | cons c r ih =>
      simp only [dropBlankStart]
      split
      · rename_i hc
        rw [behindSegment_blank (hc ▸ isBlank_newline)]
      · split
        · rename_i hc
          rw [behindSegment_blank hc, ih]
        · rfl

-- Where no blank stands in front there is nothing to drop.
theorem dropBlankStart_of_nonblank {cs : List Char} (h : ∀ c ∈ cs.head?, isBlank c = false) :
    blankStart cs = [] ∧ dropBlankStart cs = cs := by
  cases cs with
  | nil => exact ⟨rfl, rfl⟩
  | cons c r =>
      have hc : isBlank c = false := h c rfl
      have hnewline : c ≠ '\n' := by
        rintro rfl
        exact absurd hc (by decide)
      simp [blankStart, dropBlankStart, hc, hnewline]

theorem segment_nonblank {c : Char} (hc : isBlank c = false) (r : List Char) :
    ∀ d ∈ (segment (c :: r)).head?, isBlank d = false := by
  rw [segment.eq_def]
  split <;> simp_all

theorem unescape_nonblank {c : Char} (hc : isBlank c = false) (r : List Char) :
    ∀ d ∈ (unescape (c :: r)).head?, isBlank d = false := by
  rw [unescape.eq_def]
  split <;> simp_all
  all_goals decide

theorem segment_dropBlankStart (cs : List Char) :
    blankStart (segment cs) = blankStart cs ∧
      segment (dropBlankStart cs) = dropBlankStart (segment cs) := by
  induction cs with
  | nil => exact ⟨rfl, rfl⟩
  | cons c r ih =>
      cases hc : isBlank c with
      | true =>
          rw [segment_blank hc]
          simp only [blankStart, dropBlankStart, hc, ih.1, true_and]
          split
          · rfl
          · exact ih.2
      | false =>
          obtain ⟨hnone, hsame⟩ := dropBlankStart_of_nonblank (segment_nonblank hc r)
          obtain ⟨hnone', hsame'⟩ := @dropBlankStart_of_nonblank (c :: r) (by simp [hc])
          rw [hnone, hnone', hsame, hsame']
          exact ⟨rfl, rfl⟩

theorem unescape_dropBlankStart (cs : List Char) :
    unescape (dropBlankStart cs) = dropBlankStart (unescape cs) := by
  induction cs with
  | nil => rfl
  | cons c r ih =>
      cases hc : isBlank c with
      | true =>
          rw [unescape_blank hc]
          simp only [dropBlankStart, hc]
          split
          · rfl
          · exact ih
      | false =>
          rw [(dropBlankStart_of_nonblank (unescape_nonblank hc r)).2,
            (@dropBlankStart_of_nonblank (c :: r) (by simp [hc])).2]

-- Where the text in front of the lexer ends, and what it means.
def behindText (s : Cursor) : Cursor := ⟨behindSegment s.rest, s.mark.past (segment s.rest)⟩

theorem over_behindText (s : Cursor) : Cursor.Over s (behindText s) (segment s.rest) :=
  ⟨(segment_append_behind s.rest).symm, rfl⟩

-- Whether the text ends at a code block that has its line for itself, and such lines are dropped.
def dropsLine (l : Lexer) : Bool :=
  decide ((behindText l.cursor).rest.take 2 = ['<', '%']) && l.trim &&
    aloneOnLine (behindText l.cursor)

-- The text that is given out.
def shownText (l : Lexer) : List Char :=
  if l.dropsLine then fullLines (unescape (segment l.cursor.rest))
  else unescape (segment l.cursor.rest)

-- The lexer behind the text.
def pastText (l : Lexer) : Lexer :=
  { l with cursor := behindText l.cursor, trimAfter := l.trimAfter || l.dropsLine }

theorem textStep_eq (l : Lexer) :
    l.textStep =
      if l.shownText ≠ [] then
        .done (.ok ⟨.text, .text (String.ofList l.shownText), l.pos⟩) l.pastText
      else match (behindText l.cursor).rest with
      | '<' :: '%' :: _ =>
        .more { l.pastText with cursor := (behindText l.cursor).skip 2, mode := .code }
      | '$' :: '\x7b' :: _ =>
        .done (.ok ⟨.placeholder, .none, (behindText l.cursor).pos⟩)
          { l.pastText with cursor := (behindText l.cursor).skip 2, mode := .placeholder 0 }
      | _ => .done (.ok (endToken (behindText l.cursor))) l.pastText := by
  have hshown : l.shownText = (if l.dropsLine then
      (unescape (segment l.cursor.rest)).reverse.dropWhile (· ≠ '\n')
      else (unescape (segment l.cursor.rest)).reverse).reverse := by
    unfold shownText
    split
    · rfl
    · rw [List.reverse_reverse]
  have hscan : scanText l.cursor.rest l.cursor.mark [] =
      ((unescape (segment l.cursor.rest)).reverse, behindText l.cursor) := by
    rw [scanText_eq, List.append_nil, behindText]
  simp only [textStep, hscan, ← dropsLine.eq_def]
  rw [hshown]
  generalize (if l.dropsLine = true then _ else _ : List Char) = kept
  cases kept with
  | nil => rfl
  | cons c kept => simp [pastText]

end Stencil.Lexer
