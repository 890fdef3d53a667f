import Stencil.Token.Lexer

namespace Stencil

-- The faults that a lexer complains of.
def ParseFault.isSpelling : ParseFault → Bool
  | illegalCharacter _ | unterminatedString | unterminatedComment | invalidEscape
  | invalidNumber _ => true
  | _ => false

namespace Cursor

-- The second cursor is the first one moved over some text.
structure Over (s s' : Cursor) (taken : List Char) : Prop where
  rest : s.rest = taken ++ s'.rest
  mark : s'.mark = s.mark.past taken

def Reaches (s s' : Cursor) : Prop := ∃ taken, Over s s' taken

theorem Reaches.refl (s : Cursor) : Reaches s s := ⟨[], rfl, rfl⟩

theorem Over.trans {s s' s'' : Cursor} {taken more : List Char} (h : Over s s' taken)
    (h' : Over s' s'' more) : Over s s'' (taken ++ more) where
  rest := by rw [h.rest, h'.rest, List.append_assoc]
  mark := by rw [h'.mark, h.mark, Mark.past_append]

theorem Reaches.trans {s s' s'' : Cursor} (h : Reaches s s') (h' : Reaches s' s'') :
    Reaches s s'' := by
  obtain ⟨taken, h⟩ := h
  obtain ⟨more, h'⟩ := h'
  exact ⟨taken ++ more, h.trans h'⟩

theorem Reaches.length_le {s s' : Cursor} (h : Reaches s s') :
    s'.rest.length ≤ s.rest.length := by
  obtain ⟨taken, h⟩ := h
  rw [h.rest, List.length_append]
  omega

-- It was moved over at least one character.
def Moves (s s' : Cursor) : Prop := ∃ taken, taken ≠ [] ∧ Over s s' taken

theorem Moves.reaches {s s' : Cursor} (h : Moves s s') : Reaches s s' := by
  obtain ⟨taken, -, h⟩ := h
  exact ⟨taken, h⟩

theorem Moves.trans {s s' s'' : Cursor} (h : Moves s s') (h' : Reaches s' s'') : Moves s s'' := by
  obtain ⟨taken, hne, h⟩ := h
  obtain ⟨more, h'⟩ := h'
  exact ⟨taken ++ more, by simp [hne], h.trans h'⟩

theorem Reaches.moves {s s' s'' : Cursor} (h : Reaches s s') (h' : Moves s' s'') : Moves s s'' := by
  obtain ⟨taken, h⟩ := h
  obtain ⟨more, hne, h'⟩ := h'
  exact ⟨taken ++ more, by simp [hne], h.trans h'⟩

theorem Moves.length_lt {s s' : Cursor} (h : Moves s s') : s'.rest.length < s.rest.length := by
  obtain ⟨taken, hne, h⟩ := h
  have hpos := List.length_pos_iff.mpr hne
  rw [h.rest, List.length_append]
  omega

theorem over_skip (s : Cursor) (n : Nat) : Over s (s.skip n) (s.rest.take n) :=
  ⟨(List.take_append_drop n s.rest).symm, rfl⟩

theorem reaches_skip (s : Cursor) (n : Nat) : Reaches s (s.skip n) := ⟨_, s.over_skip n⟩

theorem reaches_takeWhile (s : Cursor) (p : Char → Bool) : Reaches s (s.takeWhile p).2 :=
  ⟨_, List.takeWhile_append_dropWhile.symm, rfl⟩

theorem moves_skip {s : Cursor} {n : Nat} (hn : 0 < n) (hs : s.rest ≠ []) : Moves s (s.skip n) := by
  refine ⟨_, ?_, s.over_skip n⟩
  rw [Ne, List.take_eq_nil_iff]
  rintro (hzero | hnil)
  · omega
  · exact hs hnil

theorem moves_takeWhile {s : Cursor} {p : Char → Bool} {c : Char} {r : List Char}
    (hs : s.rest = c :: r) (hc : p c = true) : Moves s (s.takeWhile p).2 := by
  refine ⟨s.rest.takeWhile p, ?_, List.takeWhile_append_dropWhile.symm, rfl⟩
  simp [hs, hc]

-- A cursor that has passed a character was moved over it first.
theorem Reaches.cons {c : Char} {cs : List Char} {m : Mark} {s' : Cursor}
    (h : Reaches ⟨cs, m.after c⟩ s') : Reaches ⟨c :: cs, m⟩ s' := by
  obtain ⟨taken, h⟩ := h
  exact ⟨c :: taken, congrArg (c :: ·) h.rest, h.mark⟩

theorem Reaches.append {done cs : List Char} {m : Mark} {s' : Cursor}
    (h : Reaches ⟨cs, m.past done⟩ s') : Reaches ⟨done ++ cs, m⟩ s' := by
  obtain ⟨taken, h⟩ := h
  exact ⟨done ++ taken, by rw [List.append_assoc, ← h.rest], by rw [h.mark, Mark.past_append]⟩

theorem Reaches.moves_append {done cs : List Char} {m : Mark} {s' : Cursor}
    (h : Reaches ⟨cs, m.past done⟩ s') (hne : done ≠ []) : Moves ⟨done ++ cs, m⟩ s' := by
  obtain ⟨taken, h⟩ := h
  exact ⟨done ++ taken, by simp [hne], by rw [List.append_assoc, ← h.rest],
    by rw [h.mark, Mark.past_append]⟩

end Cursor

open Cursor

namespace Token

theorem scanFraction_reaches {s : Cursor} {found : List Char × Cursor}
    (h : scanFraction s = some found) : Reaches s found.2 := by
  simp only [scanFraction] at h
  split at h
  · split at h
    · cases h
      exact (s.reaches_skip 1).trans (reaches_takeWhile _ _)
    · cases h
  · cases h

private theorem afterSign_reaches {negative : Bool} {s : Cursor} {found : Bool × List Char × Cursor}
    (h : (match s.rest with
      | d :: _ => if d.isDigit then some (negative, s.takeWhile Char.isDigit) else none
      | [] => none) = some found) : Reaches s found.2.2 := by
  split at h
  · split at h
    · cases h
      exact reaches_takeWhile s _
    · cases h
  · cases h

theorem scanExponent_reaches {s : Cursor} {found : Bool × List Char × Cursor}
    (h : scanExponent s = some found) : Reaches s found.2.2 := by
  simp only [scanExponent] at h
  split at h
  · split at h
    · split at h
      · exact (s.reaches_skip 2).trans (afterSign_reaches h)
      · exact (s.reaches_skip 2).trans (afterSign_reaches h)
      · exact (s.reaches_skip 1).trans (afterSign_reaches h)
    · cases h
  · cases h

theorem integerOf_ok {spelling : List Char} {value : Option Int64} {found : Terminal × Literal}
    (h : integerOf spelling value = .ok found) : found.1 = .integer := by
  cases value with
  | none => cases h
  | some n =>
      cases h
      rfl

theorem integerOf_error {spelling : List Char} {value : Option Int64} {fault : ParseFault}
    (h : integerOf spelling value = .error fault) : fault.isSpelling = true := by
  cases value with
  | none =>
      cases h
      rfl
  | some n => cases h

-- What reading a number can give: a literal of its kind, or a complaint about its spelling.
structure ReadsNumber (s : Cursor) (result : Except ParseFault (Terminal × Literal) × Cursor) :
    Prop where
  moves : Moves s result.2
  terminal : ∀ {found}, result.1 = .ok found → found.1 = .integer ∨ found.1 = .float
  fault : ∀ {fault}, result.1 = .error fault → fault.isSpelling = true

theorem readsNumber_integerOf {s s' : Cursor} (h : Moves s s') (spelling : List Char)
    (value : Option Int64) : ReadsNumber s (integerOf spelling value, s') :=
  ⟨h, fun hok => .inl (integerOf_ok hok), fun herror => integerOf_error herror⟩

theorem scanDecimal_reads {s : Cursor} {c : Char} {r : List Char} (hs : s.rest = c :: r)
    (hc : c.isDigit = true) : ReadsNumber s (scanDecimal s) := by
  have hwhole : Moves s (s.takeWhile Char.isDigit).2 := moves_takeWhile hs hc
  simp only [scanDecimal]
  generalize (s.takeWhile Char.isDigit).2 = s₁ at hwhole ⊢
  have hfraction : Reaches s₁ (((scanFraction s₁).map Prod.snd).getD s₁) := by
    cases hf : scanFraction s₁ with
    | none => exact .refl s₁
    | some found => exact scanFraction_reaches hf
  generalize ((scanFraction s₁).map Prod.snd).getD s₁ = s₂ at hfraction ⊢
  have hexponent : Reaches s₂ (((scanExponent s₂).map (·.2.2)).getD s₂) := by
    cases he : scanExponent s₂ with
    | none => exact .refl s₂
    | some found => exact scanExponent_reaches he
  split
  · exact readsNumber_integerOf hwhole _ _
  · refine ⟨hwhole.trans (hfraction.trans hexponent), ?_, ?_⟩
    · rintro found ⟨⟩
      exact .inr rfl
    · rintro fault ⟨⟩

theorem scanNumber_reads {s : Cursor} {c : Char} {r : List Char} (hs : s.rest = c :: r)
    (hc : c.isDigit = true) : ReadsNumber s (scanNumber s) := by
  simp only [scanNumber]
  split
  · split
    · have hmoves : Moves s (s.skip 2) := moves_skip (by omega) (by simp [hs])
      exact readsNumber_integerOf (hmoves.trans (reaches_takeWhile _ _)) _ _
    · exact scanDecimal_reads hs hc
  · exact scanDecimal_reads hs hc

-- What reading a string can give.
structure ReadsString (s : Cursor) (result : Except ParseError String × Cursor) : Prop where
  reaches : Reaches s result.2
  fault : ∀ {e}, result.1 = .error e → e.fault.isSpelling = true

theorem ReadsString.append {taken cs : List Char} {m : Mark}
    {result : Except ParseError String × Cursor} (h : ReadsString ⟨cs, m.past taken⟩ result) :
    ReadsString ⟨taken ++ cs, m⟩ result :=
  ⟨h.reaches.append, h.fault⟩

theorem readsString_error {s s' : Cursor} (h : Reaches s s') (pos : Position) {fault : ParseFault}
    (hfault : fault.isSpelling = true) : ReadsString s (.error ⟨pos, fault⟩, s') := by
  refine ⟨h, ?_⟩
  rintro e ⟨⟩
  exact hfault

theorem scanQuoted_reads (quote : Char) (opening : Position) (cs : List Char) (m : Mark)
    (done : List Char) : ReadsString ⟨cs, m⟩ (scanQuoted quote opening cs m done) := by
  fun_induction scanQuoted quote opening cs m done with
  | case1 m done => exact readsString_error (.refl _) _ rfl
  | case2 m done => exact readsString_error (.cons (.refl _)) _ rfl
  | case3 a b c d r m done x hx ih =>
      have hread := ih.append
      exact hread
  | case4 a b c d r m done hx =>
      have hreach := (Reaches.refl ⟨a :: b :: c :: d :: r, m.past ['\\', 'u']⟩).append
      exact readsString_error hreach _ rfl
  | case5 e r m done hunit x hx ih =>
      have hread := ih.append
      exact hread
  | case6 e r m done hunit hx =>
      have hreach := (Reaches.refl ⟨r, m.past ['\\', e]⟩).append
      exact readsString_error hreach _ rfl
  | case7 r m done => exact ⟨.cons (.refl _), by rintro e ⟨⟩⟩
  | case8 c r m done hend hunit hescape hc ih => exact ⟨ih.reaches.cons, ih.fault⟩

theorem scanString_reads (quote : Char) (s : Cursor) : ReadsString s (scanString quote s) := by
  have hread := scanQuoted_reads quote s.pos (s.rest.drop 1) (s.mark.past (s.rest.take 1)) []
  exact ⟨(s.reaches_skip 1).trans hread.reaches, hread.fault⟩

theorem scanString_moves (quote : Char) {s : Cursor} (hs : s.rest ≠ []) :
    Moves s (scanString quote s).2 :=
  (moves_skip Nat.one_pos hs).trans (scanQuoted_reads _ _ _ _ _).reaches

end Token

namespace Terminal

-- Which lexemes come with a terminal.
def carries : Terminal → Lexeme → Bool
  | identifier, .identifier _ => true
  | identifier, _ => false
  | integer, .literal _ => true
  | integer, _ => false
  | float, .literal _ => true
  | float, _ => false
  | string, .literal _ => true
  | string, _ => false
  | text, .text _ => true
  | text, _ => false
  | _, .none => true
  | _, _ => false

theorem keywords_carry : ∀ entry ∈ keywords, entry.2.carries .none = true := by decide

theorem operators_carry : ∀ entry ∈ operators, entry.2.carries .none = true := by decide

theorem operators_spelled : ∀ entry ∈ operators, entry.1 ≠ [] := by decide

end Terminal

namespace Lexer

-- What holds of an answer of the lexer: a token has the lexeme of its kind and is the end of input
-- if nothing was read for it, and a fault is about spelling.
structure Answers (s : Cursor) (result : Except ParseError Token) (s' : Cursor) : Prop where
  reaches : Reaches s s'
  carries : ∀ {t}, result = .ok t → t.terminal.carries t.lexeme = true
  moves : ∀ {t}, result = .ok t → t.terminal ≠ .endOfInput → Moves s s'
  fault : ∀ {e}, result = .error e → e.fault.isSpelling = true

theorem Answers.after {s s' s'' : Cursor} {result : Except ParseError Token} (h : Reaches s s')
    (ha : Answers s' result s'') : Answers s result s'' :=
  ⟨h.trans ha.reaches, ha.carries, fun hok hne => h.moves (ha.moves hok hne), ha.fault⟩

theorem answers_token {s s' : Cursor} {t : Token} (h : Moves s s')
    (hcarries : t.terminal.carries t.lexeme = true) : Answers s (.ok t) s' := by
  refine ⟨h.reaches, ?_, ?_, ?_⟩
  · rintro _ ⟨⟩
    exact hcarries
  · rintro _ ⟨⟩ -
    exact h
  · rintro e ⟨⟩

theorem answers_end {s s' : Cursor} (h : Reaches s s') : Answers s (.ok (endToken s')) s' := by
  refine ⟨h, ?_, ?_, ?_⟩
  · rintro _ ⟨⟩
    rfl
  · rintro _ ⟨⟩ hne
    exact absurd rfl hne
  · rintro e ⟨⟩

theorem answers_error {s s' : Cursor} {e : ParseError} (h : Reaches s s')
    (hfault : e.fault.isSpelling = true) : Answers s (.error e) s' := by
  refine ⟨h, ?_, ?_, ?_⟩
  · rintro t ⟨⟩
  · rintro t ⟨⟩
  · rintro _ ⟨⟩
    exact hfault

theorem skipBlankLine_reaches (cs : List Char) (m : Mark) :
    Reaches ⟨cs, m⟩ (skipBlankLine cs m) := by
  induction cs generalizing m with
  | nil => exact .refl _
  | cons c r ih =>
      simp only [skipBlankLine]
      split
      · exact .cons (.refl _)
      · split
        · exact .cons (ih _)
        · exact .refl _

theorem skipTrivia_reaches (trivia : Trivia) (cs : List Char) (m : Mark) :
    Reaches ⟨cs, m⟩ (skipTrivia trivia cs m).2 := by
  fun_induction skipTrivia trivia cs m with
  | case1 => exact .refl _
  | case2 => exact .refl _
  | case3 r m ih =>
      have hreach := ih.append
      exact hreach
  | case4 r m ih =>
      have hreach := ih.append
      exact hreach
  | case5 c r m hline hblock hblank ih => exact ih.cons
  | case6 => exact .refl _
  | case7 => exact .refl _
  | case8 r m hclose ih => exact ih.cons
  | case9 c r m hclose hnewline ih => exact ih.cons
  | case10 opening r m ih =>
      have hreach := ih.append
      exact hreach
  | case11 opening c r m hclose ih => exact ih.cons

theorem skipTrivia_fault {trivia : Trivia} {cs : List Char} {m : Mark} {e : ParseError}
    (h : (skipTrivia trivia cs m).1 = .error e) : e.fault.isSpelling = true := by
  fun_induction skipTrivia trivia cs m with
  | case1 opening m =>
      cases h
      rfl
  | _ => simp_all

theorem scanText_reaches (cs : List Char) (m : Mark) (done : List Char) :
    Reaches ⟨cs, m⟩ (scanText cs m done).2 := by
  fun_induction scanText cs m done with
  | case1 => exact .refl _
  | case2 r m done ih =>
      have hreach := ih.append
      exact hreach
  | case3 r m done ih =>
      have hreach := ih.append
      exact hreach
  | case4 => exact .refl _
  | case5 => exact .refl _
  | case6 c r m done _ _ _ _ ih => exact ih.cons

-- Text is collected only where something is read.
theorem scanText_moves {cs : List Char} {m : Mark} {done : List Char}
    (h : (scanText cs m done).1 ≠ done) : Moves ⟨cs, m⟩ (scanText cs m done).2 := by
  fun_cases scanText cs m done with
  | case1 => exact absurd rfl h
  | case2 r =>
      have hreach := scanText_reaches r (m.past ['\\', '<', '%']) ('%' :: '<' :: done)
      have hmoves := hreach.moves_append (by simp)
      exact hmoves
  | case3 r =>
      have hreach := scanText_reaches r (m.past ['\\', '$', '\x7b']) ('\x7b' :: '$' :: done)
      have hmoves := hreach.moves_append (by simp)
      exact hmoves
  | case4 => exact absurd rfl h
  | case5 => exact absurd rfl h
  | case6 c r =>
      have hreach : Reaches ⟨r, m.past [c]⟩ _ := scanText_reaches r (m.after c) (c :: done)
      have hmoves := hreach.moves_append (by simp)
      exact hmoves

-- A step either answers or moves on to try again.
def StepAnswers (l : Lexer) : Step → Prop
  | .done result next => Answers l.cursor result next.cursor
  | .more next => Reaches l.cursor next.cursor

theorem textStep_answers (l : Lexer) : StepAnswers l l.textStep := by
  have hreach := scanText_reaches l.cursor.rest l.cursor.mark []
  have hmoves := @scanText_moves l.cursor.rest l.cursor.mark []
  simp only [textStep]
  generalize scanText l.cursor.rest l.cursor.mark [] = scanned at hreach hmoves ⊢
  obtain ⟨text, s⟩ := scanned
  simp only at hreach hmoves ⊢
  generalize (decide (s.rest.take 2 = ['<', '%']) && l.trim && aloneOnLine s) = alone
  -- Blanks may be dropped from the text, but none are added.
  have hkept : (if alone = true then text.dropWhile (· ≠ '\n') else text) ≠ [] → text ≠ [] := by
    rintro hne rfl
    simp at hne
  generalize (if alone = true then text.dropWhile (· ≠ '\n') else text) = kept at hkept ⊢
  split
  · rename_i htext
    have hne : kept ≠ [] := by simpa using htext
    exact answers_token (hmoves (hkept hne)) rfl
  · split
    · exact hreach.trans (s.reaches_skip 2)
    · rename_i hrest
      exact answers_token (hreach.moves (moves_skip (by omega) (by simp [hrest]))) rfl
    · exact answers_end hreach

theorem wordToken_carries (word : String) (pos : Position) :
    (wordToken word pos).terminal.carries (wordToken word pos).lexeme = true := by
  simp only [wordToken]
  split
  · rename_i terminal hlookup
    obtain ⟨before, after, hsplit, -⟩ := List.lookup_eq_some_iff.mp hlookup
    exact Terminal.keywords_carry (word, terminal) (by simp [hsplit])
  · rfl

theorem isLetterOrNumeral_of_isLetter {c : Char} (h : Text.isLetter c = true) :
    Text.isLetterOrNumeral c = true := by
  simp only [Text.isLetter, Text.isLetterOrNumeral] at h ⊢
  split at h
  · simp_all [Char.isAlphanum]
  · simp_all

theorem codeToken_answers (l : Lexer) {c : Char} {r : List Char} (hs : l.cursor.rest = c :: r) :
    Answers l.cursor (l.codeToken c).1 (l.codeToken c).2.cursor := by
  simp only [codeToken]
  split
  · rename_i hdigit
    have hread := Token.scanNumber_reads hs hdigit
    split
    · rename_i terminal value s' hscan
      rw [hscan] at hread
      refine answers_token hread.moves ?_
      rcases hread.terminal rfl with hkind | hkind <;> simp only at hkind <;> rw [hkind] <;> rfl
    · rename_i fault s' hscan
      rw [hscan] at hread
      exact answers_error hread.moves.reaches (hread.fault rfl)
  · split
    · rename_i hquote
      have hread := Token.scanString_reads c l.cursor
      have hmoves := @Token.scanString_moves c l.cursor (by simp [hs])
      split
      · rename_i value s' hscan
        rw [hscan] at hmoves
        exact answers_token hmoves rfl
      · rename_i e s' hscan
        rw [hscan] at hread
        exact answers_error hread.reaches (hread.fault rfl)
    · split
      · rename_i hletter
        refine answers_token (moves_takeWhile hs ?_) (wordToken_carries _ _)
        rcases Bool.or_eq_true_iff.mp hletter with hletter | hunderscore
        · rw [isLetterOrNumeral_of_isLetter hletter, Bool.true_or]
        · rw [hunderscore, Bool.or_true]
      · split
        · rename_i spelling terminal hfind
          have hmem := List.mem_of_find?_eq_some hfind
          have hspelled := List.length_pos_iff.mpr (Terminal.operators_spelled _ hmem)
          exact answers_token (moves_skip hspelled (by simp [hs]))
            (Terminal.operators_carry _ hmem)
        · exact answers_error (.refl _) rfl

theorem codeStep_answers (l : Lexer) : StepAnswers l l.codeStep := by
  have hreach := skipTrivia_reaches .blank l.cursor.rest l.cursor.mark
  simp only [codeStep]
  split
  · rename_i e s hskip
    rw [hskip] at hreach
    exact answers_error hreach (skipTrivia_fault (by rw [hskip]))
  · rename_i s hskip
    rw [hskip] at hreach
    split
    · have hclosed := hreach.trans (s.reaches_skip 2)
      simp only [StepAnswers]
      split
      · exact hclosed.trans (skipBlankLine_reaches _ _)
      · exact hclosed
    · exact answers_end hreach
    · rename_i c r hrest hopen
      exact .after hreach (codeToken_answers { l with cursor := s } hrest)

theorem step_answers (l : Lexer) : StepAnswers l l.step := by
  simp only [step]
  split
  · exact l.textStep_answers
  · exact l.codeStep_answers
  · exact l.codeStep_answers

-- More fuel does not change an answer.
theorem run_mono {fuel more : Nat} (hle : fuel ≤ more) {l : Lexer}
    {answer : Except ParseError Token × Lexer} (h : l.run fuel = some answer) :
    l.run more = some answer := by
  induction fuel generalizing more l with
  | zero => cases h
  | succ fuel ih =>
      obtain ⟨more, rfl⟩ := Nat.exists_eq_add_of_le' (Nat.le_trans (Nat.le_add_left 1 fuel) hle)
      rw [run] at h ⊢
      split at h
      · exact h
      · exact ih (Nat.le_of_succ_le_succ hle) h

theorem run_eq_next {l : Lexer} {fuel : Nat} (h : l.cursor.rest.length < fuel) :
    l.run fuel = some l.next :=
  run_mono h (Option.some_get _).symm

theorem next_of_done {l l' : Lexer} {result : Except ParseError Token}
    (h : l.step = .done result l') : l.next = (result, l') := by
  have hrun := run_eq_next (Nat.lt_succ_self l.cursor.rest.length)
  rw [run, h] at hrun
  exact (Option.some.inj hrun).symm

theorem next_of_more {l l' : Lexer} (h : l.step = .more l') : l.next = l'.next := by
  have hrun := run_eq_next (Nat.lt_succ_self l.cursor.rest.length)
  rw [run, h] at hrun
  exact Option.some.inj (hrun.symm.trans (run_eq_next (step_shorter h)))

-- A token is given at once, or behind a delimiter.
theorem next_induction {motive : Lexer → Except ParseError Token × Lexer → Prop}
    (done : ∀ {l l' result}, l.step = .done result l' → motive l (result, l'))
    (more : ∀ {l l'}, l.step = .more l' → motive l' l'.next → motive l l'.next) (l : Lexer) :
    motive l l.next := by
  induction hlength : l.cursor.rest.length using Nat.strongRecOn generalizing l with
  | ind n ih =>
      cases hstep : l.step with
      | done result l' =>
          rw [next_of_done hstep]
          exact done hstep
      | more l' =>
          rw [next_of_more hstep]
          exact more hstep (ih _ (hlength ▸ step_shorter hstep) l' rfl)

theorem next_answers (l : Lexer) : Answers l.cursor l.next.1 l.next.2.cursor := by
  induction l using next_induction with
  | done hstep =>
      rename_i l l' result
      have hanswers := l.step_answers
      rw [hstep] at hanswers
      exact hanswers
  | more hstep ih =>
      rename_i l l'
      have hanswers := l.step_answers
      rw [hstep] at hanswers
      exact .after hanswers ih

end Lexer

end Stencil
