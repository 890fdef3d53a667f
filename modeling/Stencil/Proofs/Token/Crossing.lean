import Stencil.Proofs.Token.Events
import Stencil.Proofs.Token.Lookahead

namespace Stencil.Lexer

open Text Cursor

-- Where the code at a cursor leads: behind its end, or reading stops in it.
inductive Outcome where
  | behind (s : Cursor)
  | stops (ending : Ending)

-- What code is made of that is read from a cursor on.
inductive Crosses : Mode → Cursor → List (Mode × Token) → Outcome → Prop
  | token {mode : Mode} {s : Cursor} {l : Lexer} {t : Token} {tokens : List (Mode × Token)}
      {outcome : Outcome} (given : codeStep ⟨s, mode, false, false⟩ = .done (.ok t) l)
      (more : t.terminal ≠ .endOfInput) (stays : l.mode ≠ .text)
      (rest : Crosses l.mode l.cursor tokens outcome) :
      Crosses mode s ((mode, t) :: tokens) outcome
  | brace {mode : Mode} {s : Cursor} {l : Lexer} {t : Token}
      (given : codeStep ⟨s, mode, false, false⟩ = .done (.ok t) l)
      (more : t.terminal ≠ .endOfInput) (leaves : l.mode = .text) :
      Crosses mode s [(mode, t)] (.behind l.cursor)
  | block {mode : Mode} {s : Cursor} {l : Lexer}
      (passed : codeStep ⟨s, mode, false, false⟩ = .more l) : Crosses mode s [] (.behind l.cursor)
  | ended {mode : Mode} {s : Cursor} {l : Lexer} {t : Token}
      (given : codeStep ⟨s, mode, false, false⟩ = .done (.ok t) l)
      (last : t.terminal = .endOfInput) : Crosses mode s [] (.stops (.ended t.pos))
  | failed {mode : Mode} {s : Cursor} {l : Lexer} {e : ParseError}
      (given : codeStep ⟨s, mode, false, false⟩ = .done (.error e) l) :
      Crosses mode s [] (.stops (.failed e))

theorem crosses_total (mode : Mode) (s : Cursor) :
    ∃ tokens outcome, Crosses mode s tokens outcome := by
  induction hlength : s.rest.length using Nat.strong_induction_on generalizing mode s with
  | _ n ih =>
      cases hstep : codeStep ⟨s, mode, false, false⟩ with
      | more l => exact ⟨[], _, .block hstep⟩
      | done result l =>
          cases result with
          | error e => exact ⟨[], _, .failed hstep⟩
          | ok t =>
              by_cases hlast : t.terminal = .endOfInput
              · exact ⟨[], _, .ended hstep hlast⟩
              · by_cases hmode : l.mode = .text
                · exact ⟨_, _, .brace hstep hlast hmode⟩
                · have hanswers := codeStep_answers ⟨s, mode, false, false⟩
                  rw [hstep] at hanswers
                  have hshorter := (hanswers.moves rfl hlast).length_lt
                  obtain ⟨tokens, outcome, hrest⟩ :=
                    ih l.cursor.rest.length (by rw [← hlength]; exact hshorter) l.mode l.cursor rfl
                  exact ⟨_, outcome, .token hstep hlast hmode hrest⟩

theorem Crosses.reaches {mode : Mode} {s s' : Cursor} {tokens : List (Mode × Token)}
    (h : Crosses mode s tokens (.behind s')) : Reaches s s' := by
  generalize houtcome : Outcome.behind s' = outcome at h
  induction h with
  | @token mode s l t tokens outcome given more stays rest ih =>
      have hanswers := codeStep_answers ⟨s, mode, false, false⟩
      rw [given] at hanswers
      exact hanswers.reaches.trans (ih houtcome)
  | @brace mode s l t given more leaves =>
      cases houtcome
      have hanswers := codeStep_answers ⟨s, mode, false, false⟩
      rw [given] at hanswers
      exact hanswers.reaches
  | @block mode s l passed =>
      cases houtcome
      have hanswers := codeStep_answers ⟨s, mode, false, false⟩
      rw [passed] at hanswers
      exact hanswers
  | ended given last => cases houtcome
  | failed given => cases houtcome

theorem Crosses.split {mode : Mode} {front r : List Char} {tokens : List (Mode × Token)}
    {s : Cursor} (h : Crosses mode ⟨r, Mark.start.past front⟩ tokens (.behind s)) :
    ∃ taken rest, r = taken ++ rest ∧ s = ⟨rest, Mark.start.past (front ++ taken)⟩ := by
  obtain ⟨taken, hover⟩ := h.reaches
  obtain ⟨rest, mark⟩ := s
  have hmark : mark = (Mark.start.past front).past taken := hover.mark
  exact ⟨taken, rest, hover.rest, by rw [hmark, Mark.past_append]⟩

theorem modeAfter_eq_code (mode : Mode) (t : Terminal) :
    modeAfter mode t = .code ↔ mode = .code := by
  cases mode with
  | text => cases t <;> simp [modeAfter]
  | code => cases t <;> simp [modeAfter]
  | placeholder depth => cases depth <;> cases t <;> simp [modeAfter]

-- A code block stays one until it is closed, and nothing in a placeholder opens one.
theorem codeToken_mode {l l' : Lexer} {c : Char} {result : Except ParseError Token}
    (h : codeToken l c = (result, l')) : l'.mode = .code ↔ l.mode = .code := by
  simp only [codeToken] at h
  split at h
  · split at h <;> cases h <;> rfl
  · split at h
    · split at h <;> cases h <;> rfl
    · split at h
      · cases h
        rfl
      · split at h
        · cases h
          exact modeAfter_eq_code _ _
        · cases h
          rfl

theorem step_code {s : Cursor} {mode : Mode} {trim trimAfter : Bool} (h : mode ≠ .text) :
    step ⟨s, mode, trim, trimAfter⟩ = codeStep ⟨s, mode, trim, trimAfter⟩ := by
  cases mode with
  | text => exact absurd rfl h
  | code => rfl
  | placeholder depth => rfl

-- What is read of code does not depend on whether lines are dropped.
theorem codeToken_flags (s : Cursor) (mode : Mode) (trim trimAfter : Bool) (c : Char) :
    codeToken ⟨s, mode, trim, trimAfter⟩ c =
      ((codeToken ⟨s, mode, false, false⟩ c).1,
        ⟨(codeToken ⟨s, mode, false, false⟩ c).2.cursor,
          (codeToken ⟨s, mode, false, false⟩ c).2.mode, trim, trimAfter⟩) := by
  simp only [codeToken]
  split
  · split <;> rfl
  · split
    · split <;> rfl
    · split
      · rfl
      · split <;> rfl

theorem codeStep_done {s : Cursor} {mode : Mode} {result : Except ParseError Token} {l : Lexer}
    (h : codeStep ⟨s, mode, false, false⟩ = .done result l) :
    (l.mode = .code ↔ mode = .code) ∧
      ∀ trim trimAfter, codeStep ⟨s, mode, trim, trimAfter⟩ =
        .done result ⟨l.cursor, l.mode, trim, trimAfter⟩ := by
  simp only [codeStep] at h ⊢
  split at h
  · cases h
    exact ⟨.rfl, fun _ _ => rfl⟩
  · rename_i s' _
    have hflags := codeToken_flags s' mode
    have hmode := fun c => @codeToken_mode ⟨s', mode, false, false⟩
      (codeToken ⟨s', mode, false, false⟩ c).2 c _ rfl
    split at h
    · cases h
    · cases h
      exact ⟨.rfl, fun _ _ => rfl⟩
    · cases h
      refine ⟨hmode _, fun trim trimAfter => ?_⟩
      rw [hflags]

theorem codeStep_more {s : Cursor} {mode : Mode} {l : Lexer}
    (h : codeStep ⟨s, mode, false, false⟩ = .more l) :
    mode = .code ∧ l.cursor = (skipTrivia .blank s.rest s.mark).2.skip 2 ∧
      codeRest .code s.rest = some l.cursor.rest ∧
      ∀ trim trimAfter, codeStep ⟨s, mode, trim, trimAfter⟩ =
        .more ⟨if trimAfter then skipBlankLine l.cursor.rest l.cursor.mark else l.cursor, .text,
          trim, false⟩ := by
  simp only [codeStep] at h ⊢
  split at h
  · cases h
  · rename_i s' hskip
    split at h
    · rename_i r hrest
      cases h
      have hlevel : codeRest .code s.rest = codeRest .code s'.rest := level_trivia hskip
      refine ⟨rfl, ?_, ?_, fun trim trimAfter => ?_⟩
      · rw [hskip]
        rfl
      · rw [hlevel, hrest]
        simp [Cursor.skip, hrest, codeRest]
      · rfl
    · cases h
    · cases h

-- A token of a code block is one for the look-ahead too.
theorem level_codeStep {s : Cursor} {l : Lexer} {t : Token}
    (h : codeStep ⟨s, .code, false, false⟩ = .done (.ok t) l) :
    (t.terminal ≠ .endOfInput → Level s l.cursor) ∧
      (t.terminal = .endOfInput → codeRest .code s.rest = none) := by
  simp only [codeStep] at h
  split at h
  · cases h
  · rename_i s' hskip
    have hlevel : Level s s' := level_trivia hskip
    split at h
    · cases h
    · rename_i hrest
      cases h
      refine ⟨fun hne => absurd rfl hne, fun _ => ?_⟩
      rw [hlevel, hrest]
      rfl
    · rename_i c r hrest hopen
      cases hresult : codeToken ⟨s', .code, false, false⟩ c with
      | mk result l' =>
          rw [hresult] at h
          cases h
          refine ⟨fun _ => hlevel.trans (level_codeToken hrest (skipTrivia_done hskip) ?_ hresult),
            fun hlast => absurd hlast (codeToken_ne_end hrest hresult)⟩
          intro r' hclose
          rw [hrest] at hclose
          cases hclose
          exact hopen r' rfl rfl rfl

-- The look-ahead ends where the code block does.
theorem Crosses.lookahead {s : Cursor} {tokens : List (Mode × Token)} {outcome : Outcome}
    (h : Crosses .code s tokens outcome) :
    (∀ s', outcome = .behind s' → codeRest .code s.rest = some s'.rest) ∧
      ∀ pos, outcome = .stops (.ended pos) → codeRest .code s.rest = none := by
  generalize hmode : Mode.code = mode at h
  induction h with
  | @token mode s l t tokens outcome given more stays rest ih =>
      subst hmode
      have hlevel : codeRest .code s.rest = codeRest .code l.cursor.rest :=
        (level_codeStep given).1 more
      rw [hlevel]
      exact ih ((codeStep_done given).1.mpr rfl).symm
  | brace given more leaves =>
      subst hmode
      have hcode := (codeStep_done given).1.mpr rfl
      rw [leaves] at hcode
      cases hcode
  | block passed =>
      refine ⟨?_, by rintro pos ⟨⟩⟩
      rintro s' ⟨⟩
      exact (codeStep_more passed).2.2.1
  | ended given last =>
      subst hmode
      refine ⟨by rintro s' ⟨⟩, fun _ _ => (level_codeStep given).2 last⟩
  | failed given => exact ⟨by rintro s' ⟨⟩, by rintro pos ⟨⟩⟩

-- The events of code, up to where reading stops in it.
theorem Crosses.reads_stop {mode : Mode} {s : Cursor} {tokens : List (Mode × Token)}
    {ending : Ending} (h : Crosses mode s tokens (.stops ending)) (hmode : mode ≠ .text)
    (trim trimAfter : Bool) : Reads ⟨s, mode, trim, trimAfter⟩ (Event.ofTokens tokens) ending := by
  generalize houtcome : Outcome.stops ending = outcome at h
  induction h with
  | @token mode s l t tokens outcome given more stays rest ih =>
      have hstep : step ⟨s, mode, trim, trimAfter⟩ = _ :=
        (step_code hmode).trans ((codeStep_done given).2 trim trimAfter)
      exact .token hstep more (ih stays houtcome)
  | brace given more leaves => cases houtcome
  | block passed => cases houtcome
  | ended given last =>
      cases houtcome
      exact .ended ((step_code hmode).trans ((codeStep_done given).2 trim trimAfter)) last
  | failed given =>
      cases houtcome
      exact .failed ((step_code hmode).trans ((codeStep_done given).2 trim trimAfter))

-- The events of code that comes to its end, and those behind it.
theorem Crosses.reads_behind {mode : Mode} {s s' : Cursor} {tokens : List (Mode × Token)}
    (h : Crosses mode s tokens (.behind s')) (hmode : mode ≠ .text) {trim trimAfter : Bool}
    (hafter : mode = .code ∨ trimAfter = false) {events : List Event} {ending : Ending}
    (hrest : Reads ⟨if trimAfter then skipBlankLine s'.rest s'.mark else s', .text, trim, false⟩
      events ending) :
    Reads ⟨s, mode, trim, trimAfter⟩
      (Event.ofTokens tokens ++ (if mode = .code then [Event.closing s'.pos] else []) ++ events) ending := by
  generalize houtcome : Outcome.behind s' = outcome at h
  induction h with
  | @token mode s l t tokens outcome given more stays rest ih =>
      have hdone := codeStep_done given
      have hsame : (l.mode = .code) = (mode = .code) := propext hdone.1
      simp only [hsame] at ih
      exact .token ((step_code hmode).trans (hdone.2 trim trimAfter)) more
        (ih stays hafter houtcome)
  | @brace mode s l t given more leaves =>
      cases houtcome
      have hdone := codeStep_done given
      have hcode : mode ≠ .code := fun hcode => by simp [hdone.1.mpr hcode] at leaves
      obtain rfl := hafter.resolve_left hcode
      rw [if_neg hcode, List.append_nil]
      have hstep := (step_code hmode).trans (hdone.2 trim false)
      rw [leaves] at hstep
      exact .token hstep more hrest
  | @block mode s l passed =>
      cases houtcome
      obtain ⟨rfl, hplace, -, hstep⟩ := codeStep_more passed
      rw [if_pos rfl, hplace]
      exact .closing rfl ((step_code hmode).trans (hstep trim trimAfter)) hrest
  | ended given last => cases houtcome
  | failed given => cases houtcome

end Stencil.Lexer
