import Stencil.Proofs.Token.Reading

namespace Stencil

open Text Cursor

-- What reading a source comes to: a token, with what it was read inside of, or one of the two
-- delimiters of a code block, which are no tokens. The place of the first is where it stands, that
-- of the second is behind it.
inductive Event where
  | token (inside : Mode) (t : Token)
  | opening (pos : Position)
  | closing (pos : Position)

-- How reading stops.
inductive Ending where
  | ended (pos : Position)
  | failed (e : ParseError)

namespace Event

def token? : Event → Option Token
  | .token _ t => some t
  | .opening _ => none
  | .closing _ => none

def isText : Event → Bool
  | .token _ t => t.terminal = .text
  | .opening _ => false
  | .closing _ => false

@[simp] theorem isText_token (mode : Mode) (t : Token) :
    (token mode t).isText = decide (t.terminal = .text) := rfl

@[simp] theorem isText_opening (pos : Position) : (opening pos).isText = false := rfl

@[simp] theorem isText_closing (pos : Position) : (closing pos).isText = false := rfl

-- The event of a text, if it is not empty.
def ofText (pos : Position) (text : List Char) : List Event :=
  if text = [] then [] else [.token .text ⟨.text, .text (String.ofList text), pos⟩]

@[simp] theorem filter_ofText (pos : Position) (text : List Char) :
    (ofText pos text).filter (!·.isText) = [] := by
  unfold ofText
  split <;> rfl

-- The tokens of code, each with what it was read inside of.
def ofTokens (tokens : List (Mode × Token)) : List Event :=
  tokens.map fun (mode, t) => .token mode t

end Event

-- What the call gives that reading stops with.
def Ending.answer : Ending → Except ParseError Token
  | .ended pos => .ok ⟨.endOfInput, .none, pos⟩
  | .failed e => .error e

namespace Lexer

-- What a lexer comes to, step by step.
inductive Reads : Lexer → List Event → Ending → Prop
  | token {l l' : Lexer} {t : Token} {events : List Event} {ending : Ending}
      (given : l.step = .done (.ok t) l') (more : t.terminal ≠ .endOfInput)
      (rest : Reads l' events ending) : Reads l (.token l.mode t :: events) ending
  | opening {l l' : Lexer} {events : List Event} {ending : Ending} (mode : l.mode = .text)
      (passed : l.step = .more l') (rest : Reads l' events ending) :
      Reads l (.opening (behindText l.cursor).pos :: events) ending
  | closing {l l' : Lexer} {events : List Event} {ending : Ending} (mode : l.mode = .code)
      (passed : l.step = .more l') (rest : Reads l' events ending) :
      Reads l
        (.closing ((skipTrivia .blank l.cursor.rest l.cursor.mark).2.skip 2).pos :: events) ending
  | ended {l l' : Lexer} {t : Token} (given : l.step = .done (.ok t) l')
      (last : t.terminal = .endOfInput) : Reads l [] (.ended t.pos)
  | failed {l l' : Lexer} {e : ParseError} (given : l.step = .done (.error e) l') :
      Reads l [] (.failed e)

theorem after_next_of_more {l l' : Lexer} (h : l.step = .more l') (n : Nat) :
    (l.after n).next = (l'.after n).next := by
  cases n with
  | zero => exact next_of_more h
  | succ n => rw [after_succ, after_succ, next_of_more h]

-- The tokens that a lexer comes to are those that it gives out call after call.
theorem Reads.calls {l : Lexer} {events : List Event} {ending : Ending}
    (h : Reads l events ending) :
    (∀ n t, (events.filterMap Event.token?)[n]? = some t → (l.after n).next.1 = .ok t) ∧
      (l.after (events.filterMap Event.token?).length).next.1 = ending.answer := by
  induction h with
  | @token l l' t events ending given more rest ih =>
      have hnext := next_of_done given
      refine ⟨fun n => ?_, ?_⟩
      · cases n with
        | zero =>
            rintro t' ⟨⟩
            exact congrArg Prod.fst hnext
        | succ n =>
            intro t' ht'
            rw [after_succ, hnext]
            exact ih.1 n t' ht'
      · rw [← ih.2]
        change (l.after ((events.filterMap Event.token?).length + 1)).next.1 = _
        rw [after_succ, hnext]
  | opening mode passed rest ih =>
      refine ⟨fun n t ht => ?_, ?_⟩
      · rw [after_next_of_more passed]
        exact ih.1 n t ht
      · rw [after_next_of_more passed]
        exact ih.2
  | closing mode passed rest ih =>
      refine ⟨fun n t ht => ?_, ?_⟩
      · rw [after_next_of_more passed]
        exact ih.1 n t ht
      · rw [after_next_of_more passed]
        exact ih.2
  | @ended l l' t given last =>
      have hnext := next_of_done given
      obtain ⟨-, rfl⟩ := step_end given last
      refine ⟨by rintro n t ⟨⟩, ?_⟩
      exact congrArg Prod.fst hnext
  | failed given => exact ⟨by rintro n t ⟨⟩, congrArg Prod.fst (next_of_done given)⟩

theorem behindSegment_behindSegment (cs : List Char) :
    segment (behindSegment cs) = [] ∧ behindSegment (behindSegment cs) = behindSegment cs := by
  rcases behindSegment_cases cs with h | ⟨r, h⟩ | ⟨r, h⟩
  · rw [h]
    exact ⟨rfl, rfl⟩
  · rw [h]
    exact ⟨rfl, rfl⟩
  · rw [h]
    exact ⟨rfl, rfl⟩

theorem behindText_behindText (s : Cursor) : behindText (behindText s) = behindText s := by
  obtain ⟨hnone, hsame⟩ := behindSegment_behindSegment s.rest
  simp [behindText, hnone, hsame]

theorem shownText_pastText (l : Lexer) : l.pastText.shownText = [] := by
  have hnone := (behindSegment_behindSegment l.cursor.rest).1
  simp only [shownText, pastText, behindText, hnone, unescape]
  split <;> rfl

theorem pastText_pastText (l : Lexer) : l.pastText.pastText = l.pastText := by
  have hdrops : l.pastText.dropsLine = l.dropsLine := by
    simp [dropsLine, pastText, behindText_behindText]
  rw [pastText, hdrops]
  simp [pastText, behindText_behindText]

theorem step_pastText {l : Lexer} (hmode : l.mode = .text) (hnone : l.shownText = []) :
    l.step = l.pastText.step := by
  have hmode' : l.pastText.mode = .text := hmode
  rw [step, hmode, step, hmode']
  simp only
  rw [textStep_eq, textStep_eq, if_neg (by simp [hnone]), if_neg (by simp [shownText_pastText]),
    pastText_pastText]
  simp only [pastText, behindText_behindText]

-- Text is given out first, then what is behind it.
theorem reads_text {l : Lexer} (hmode : l.mode = .text) {events : List Event} {ending : Ending}
    (h : Reads l.pastText events ending) :
    Reads l (Event.ofText l.pos l.shownText ++ events) ending := by
  unfold Event.ofText
  split
  · rename_i hnone
    have hstep := step_pastText hmode hnone
    have hsame : l.pastText.mode = l.mode := rfl
    cases h with
    | token given more rest =>
        rw [hsame]
        exact .token (hstep.trans given) more rest
    | @opening _ l' events _ mode passed rest =>
        have hplace : behindText l.pastText.cursor = behindText l.cursor := behindText_behindText _
        rw [hplace]
        exact .opening hmode (hstep.trans passed) rest
    | closing mode passed rest =>
        rw [hsame, hmode] at mode
        cases mode
    | ended given last => exact .ended (hstep.trans given) last
    | failed given => exact .failed (hstep.trans given)
  · rename_i hsome
    have hstep : l.step =
        .done (.ok ⟨.text, .text (String.ofList l.shownText), l.pos⟩) l.pastText := by
      rw [step, hmode]
      simp only
      rw [textStep_eq, if_pos hsome]
    have hevent := Reads.token hstep (by simp) h
    rw [hmode] at hevent
    exact hevent

theorem reads_opening {l : Lexer} {r : List Char} (hmode : l.mode = .text)
    (hrest : (behindText l.cursor).rest = '<' :: '%' :: r) {events : List Event} {ending : Ending}
    (h : Reads ⟨(behindText l.cursor).skip 2, .code, l.trim, l.trimAfter || l.dropsLine⟩ events
      ending) :
    Reads l (Event.ofText l.pos l.shownText ++ .opening (behindText l.cursor).pos :: events)
      ending := by
  have hmode' : l.pastText.mode = .text := hmode
  have hplace : behindText l.pastText.cursor = behindText l.cursor := behindText_behindText _
  have hstep : l.pastText.step =
      .more ⟨(behindText l.cursor).skip 2, .code, l.trim, l.trimAfter || l.dropsLine⟩ := by
    rw [step, hmode']
    simp only
    rw [textStep_eq, if_neg (by simp [shownText_pastText]), hplace, hrest, pastText_pastText]
    rfl
  have hevent := Reads.opening hmode' hstep h
  rw [hplace] at hevent
  exact reads_text hmode hevent

theorem reads_placeholder {l : Lexer} {r : List Char} (hmode : l.mode = .text)
    (hrest : (behindText l.cursor).rest = '$' :: '\x7b' :: r) {events : List Event}
    {ending : Ending}
    (h : Reads ⟨(behindText l.cursor).skip 2, .placeholder 0, l.trim, l.trimAfter || l.dropsLine⟩
      events ending) :
    Reads l (Event.ofText l.pos l.shownText ++
      .token .text ⟨.placeholder, .none, (behindText l.cursor).pos⟩ :: events) ending := by
  have hmode' : l.pastText.mode = .text := hmode
  have hplace : behindText l.pastText.cursor = behindText l.cursor := behindText_behindText _
  have hstep : l.pastText.step = .done (.ok ⟨.placeholder, .none, (behindText l.cursor).pos⟩)
      ⟨(behindText l.cursor).skip 2, .placeholder 0, l.trim, l.trimAfter || l.dropsLine⟩ := by
    rw [step, hmode']
    simp only
    rw [textStep_eq, if_neg (by simp [shownText_pastText]), hplace, hrest, pastText_pastText]
    rfl
  have hevent := Reads.token hstep (by simp) h
  rw [hmode'] at hevent
  exact reads_text hmode hevent

theorem reads_over {l : Lexer} (hmode : l.mode = .text) (hrest : (behindText l.cursor).rest = []) :
    Reads l (Event.ofText l.pos l.shownText) (.ended (behindText l.cursor).pos) := by
  have hmode' : l.pastText.mode = .text := hmode
  have hplace : behindText l.pastText.cursor = behindText l.cursor := behindText_behindText _
  have hstep : l.pastText.step = .done (.ok (endToken (behindText l.cursor))) l.pastText := by
    rw [step, hmode']
    simp only
    rw [textStep_eq, if_neg (by simp [shownText_pastText]), hplace, hrest, pastText_pastText]
  have hevent := reads_text hmode (Reads.ended hstep rfl)
  rw [List.append_nil] at hevent
  exact hevent

end Lexer

end Stencil
