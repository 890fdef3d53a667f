import Stencil.Proofs.Token.Spelling

namespace Stencil.Lexer

open Text Cursor Token

-- The lexer after so many calls, whatever they gave.
def after (l : Lexer) : Nat → Lexer
  | 0 => l
  | n + 1 => (l.after n).next.2

theorem after_succ (l : Lexer) (n : Nat) : l.after (n + 1) = l.next.2.after n := by
  induction n with
  | zero => rfl
  | succ n ih => exact congrArg (fun l : Lexer => l.next.2) ih

theorem over_next (l : Lexer) : ∃ taken, Over l.cursor l.next.2.cursor taken :=
  l.next_answers.reaches

theorem over_after (l : Lexer) (n : Nat) : ∃ taken, Over l.cursor (l.after n).cursor taken := by
  induction n with
  | zero => exact Reaches.refl _
  | succ n ih => exact Reaches.trans ih (over_next _)

theorem trim_after (l : Lexer) (n : Nat) : (l.after n).trim = l.trim := by
  induction n with
  | zero => rfl
  | succ n ih => exact (next_trim _).trans ih

theorem keywords_ne_end : ∀ entry ∈ Terminal.keywords, entry.2 ≠ .endOfInput := by decide

theorem operators_ne_end : ∀ entry ∈ Terminal.operators, entry.2 ≠ .endOfInput := by decide

theorem codeToken_ne_end {l l' : Lexer} {c : Char} {r : List Char} {t : Token}
    (hs : l.cursor.rest = c :: r) (h : codeToken l c = (.ok t, l')) :
    t.terminal ≠ .endOfInput := by
  simp only [codeToken] at h
  split at h
  · rename_i hdigit
    have hread := scanNumber_reads hs hdigit
    split at h
    · rename_i terminal value s' hscan
      cases h
      rw [hscan] at hread
      rcases hread.terminal rfl with hkind | hkind
      · exact ne_of_eq_of_ne hkind (by decide)
      · exact ne_of_eq_of_ne hkind (by decide)
    · cases h
  · split at h
    · split at h
      · cases h
        simp
      · cases h
    · split at h
      · cases h
        unfold wordToken
        split
        · rename_i hlookup
          obtain ⟨before, after, hsplit, -⟩ := List.lookup_eq_some_iff.mp hlookup
          exact keywords_ne_end _
            (by rw [hsplit]; exact List.mem_append_right _ (List.mem_cons_self ..))
        · simp
      · split at h
        · rename_i hfind
          cases h
          exact operators_ne_end _ (List.mem_of_find?_eq_some hfind)
        · cases h

-- The end of input is given out where nothing is left.
theorem step_end {l l' : Lexer} {t : Token} (h : l.step = .done (.ok t) l')
    (ht : t.terminal = .endOfInput) : l'.cursor.rest = [] ∧ t = endToken l'.cursor := by
  have hcode : ∀ {l l' : Lexer} {t : Token}, l.codeStep = .done (.ok t) l' →
      t.terminal = .endOfInput → l'.cursor.rest = [] ∧ t = endToken l'.cursor := by
    intro l l' t h ht
    simp only [codeStep] at h
    split at h
    · cases h
    · rename_i s hskip
      split at h
      · cases h
      · rename_i hrest
        cases h
        exact ⟨hrest, rfl⟩
      · rename_i c r hrest _
        cases hresult : codeToken { l with cursor := s } c with
        | mk result next =>
            rw [hresult] at h
            cases h
            exact absurd ht (codeToken_ne_end hrest hresult)
  unfold step at h
  split at h
  · rw [textStep_eq] at h
    split at h
    · cases h
      cases ht
    · split at h
      · cases h
      · cases h
        cases ht
      · rename_i hcode hplaceholder
        cases h
        refine ⟨?_, rfl⟩
        rcases behindSegment_cases l.cursor.rest with hrest | ⟨r, hrest⟩ | ⟨r, hrest⟩
        · exact hrest
        · exact absurd hrest (hcode r)
        · exact absurd hrest (hplaceholder r)
  · exact hcode h ht
  · exact hcode h ht

theorem next_endOfInput {l l' : Lexer} {t : Token} (h : l.next = (.ok t, l'))
    (ht : t.terminal = .endOfInput) : l'.cursor.rest = [] ∧ t = endToken l'.cursor := by
  induction l using next_induction with
  | done hstep =>
      cases h
      exact step_end hstep ht
  | more hstep ih => exact ih h

-- Where nothing is left, the end of input is given out and nothing changes.
theorem next_of_rest_nil {l : Lexer} (h : l.cursor.rest = []) :
    l.next.1 = .ok (endToken l.cursor) ∧ l.next.2.cursor = l.cursor := by
  obtain ⟨⟨rest, mark⟩, mode, trim, trimAfter⟩ := l
  obtain rfl : rest = [] := h
  cases mode with
  | text => exact ⟨rfl, rfl⟩
  | code => exact ⟨rfl, rfl⟩
  | placeholder depth => exact ⟨rfl, rfl⟩

theorem next_of_end {l l' : Lexer} {t : Token} (h : l.next = (.ok t, l'))
    (ht : t.terminal = .endOfInput) : l'.next.1 = .ok t := by
  obtain ⟨hrest, rfl⟩ := next_endOfInput h ht
  exact (next_of_rest_nil hrest).1

-- What a call gives: more input, or not.
def Stops (l : Lexer) : Prop :=
  (∃ e, l.next.1 = .error e) ∨ ∃ t, l.next.1 = .ok t ∧ t.terminal = .endOfInput

theorem next_moves {l : Lexer} (h : ¬ l.Stops) :
    l.next.2.cursor.rest.length < l.cursor.rest.length := by
  have hanswers := l.next_answers
  cases hresult : l.next.1 with
  | error e => exact absurd (.inl ⟨e, hresult⟩) h
  | ok t =>
      have ht : t.terminal ≠ .endOfInput := fun ht => h (.inr ⟨t, hresult, ht⟩)
      exact (hanswers.moves hresult ht).length_lt

-- Every call that does not stop takes a character.
theorem length_after {l : Lexer} {n : Nat} (h : ∀ m < n, ¬ (l.after m).Stops) :
    (l.after n).cursor.rest.length + n ≤ l.cursor.rest.length := by
  induction n with
  | zero => exact Nat.le_refl _
  | succ n ih =>
      have hbefore := ih fun m hm => h m (Nat.lt_succ_of_lt hm)
      have hmoves := next_moves (h n (Nat.lt_succ_self n))
      simp only [after]
      omega

theorem stops_within (l : Lexer) : ∃ n ≤ l.cursor.rest.length, (l.after n).Stops := by
  by_contra hnone
  simp only [not_exists, not_and] at hnone
  have hlength := length_after (n := l.cursor.rest.length + 1)
    fun m hm => hnone m (Nat.le_of_lt_succ hm)
  omega

theorem end_repeats {l : Lexer} {n : Nat} {t : Token} (h : (l.after n).next.1 = .ok t)
    (ht : t.terminal = .endOfInput) (m : Nat) : (l.after (n + m)).next.1 = .ok t := by
  induction m with
  | zero => exact h
  | succ m ih => exact next_of_end (Prod.ext ih rfl) ht

-- Whoever has given out the end of input has read the whole source.
theorem read_all {source : String} {trim : Bool} {n : Nat} {t : Token}
    (h : ((start source trim).after n).next.1 = .ok t) (ht : t.terminal = .endOfInput) :
    ((start source trim).after (n + 1)).cursor.rest = [] ∧
      t.pos = Position.behind source.toList := by
  obtain ⟨hrest, rfl⟩ := next_endOfInput (Prod.ext h rfl) ht
  refine ⟨hrest, ?_⟩
  obtain ⟨read, hover⟩ := (start source trim).over_after (n + 1)
  have hsource : source.toList = read ++ _ := hover.rest
  have hmark : ((start source trim).after (n + 1)).cursor.mark = Mark.start.past read := hover.mark
  rw [hsource, show ((start source trim).after (n + 1)).cursor.rest = [] from hrest,
    List.append_nil, ← Mark.pos_past_start, ← hmark]
  rfl

-- Every call comes to an answer, in fewer steps than characters are left and one more. Along all
-- calls, also those after an error, the lexer stands between two characters of the source and knows
-- its place there. A token other than the end of input is read off the characters in front of the
-- lexer, stands where the first one it is spelled with stands, and moves the lexer behind the last
-- one. So there are no more calls than characters before the end of input or an error comes. The
-- end of input comes behind the whole source, and keeps coming there.
theorem reading_progresses (source : String) (trim : Bool) :
    (∀ n fuel, ((start source trim).after n).cursor.rest.length < fuel →
      ((start source trim).after n).run fuel = some ((start source trim).after n).next) ∧
    (∀ n, ∃ read, source.toList = read ++ ((start source trim).after n).cursor.rest ∧
      ((start source trim).after n).pos.line = 1 + read.count '\n' ∧
      byteLength (fullLines read) ≤ byteLength read ∧
      ((start source trim).after n).pos.column =
        byteLength read - byteLength (fullLines read) + 1 ∧
      ∀ t, ((start source trim).after n).next.1 = .ok t → t.terminal ≠ .endOfInput →
        ∃ passed spelled,
          source.toList =
            read ++ passed ++ spelled ++ ((start source trim).after (n + 1)).cursor.rest ∧
          spelled ≠ [] ∧ Spelling trim t.terminal t.lexeme spelled ∧
          t.pos = Position.behind (read ++ passed)) ∧
    (∃ n ≤ byteLength source.toList, ((start source trim).after n).Stops) ∧
    ∀ n t, ((start source trim).after n).next.1 = .ok t → t.terminal = .endOfInput →
      ((start source trim).after (n + 1)).cursor.rest = [] ∧
      t.pos = Position.behind source.toList ∧
      ∀ m, ((start source trim).after (n + m)).next.1 = .ok t := by
  refine ⟨fun n fuel hfuel => run_eq_next hfuel, fun n => ?_, ?_, fun n t h ht => ?_⟩
  · obtain ⟨read, hover⟩ := (start source trim).over_after n
    have hmark : ((start source trim).after n).cursor.mark = Mark.start.past read := hover.mark
    have hpos : ((start source trim).after n).pos = Position.behind read := by
      rw [← Mark.pos_past_start, ← hmark]
      rfl
    refine ⟨read, hover.rest, congrArg Position.line hpos, byteLength_fullLines_le read, ?_, ?_⟩
    · rw [hpos]
      exact Nat.add_comm ..
    · intro t h ht
      obtain ⟨passed, spelled, hcovers⟩ := next_covers (Prod.ext h rfl) ht ⟨read, hmark⟩
      rw [trim_after] at hcovers
      refine ⟨passed, spelled, ?_, hcovers.ne_nil, hcovers.spelling, ?_⟩
      · have hsource : source.toList = read ++ _ := hover.rest
        rw [hsource, hcovers.rest]
        simp only [List.append_assoc]
        rfl
      · rw [hcovers.pos, hmark, ← Mark.past_append, Mark.pos_past_start]
  · obtain ⟨n, hn, hstops⟩ := (start source trim).stops_within
    exact ⟨n, Nat.le_trans hn (length_le_byteLength _), hstops⟩
  · obtain ⟨hrest, hpos⟩ := read_all h ht
    exact ⟨hrest, hpos, end_repeats h ht⟩

end Stencil.Lexer
