import Stencil.Proofs.Template.Replay
import Stencil.Proofs.Token.Reading
import Stencil.Proofs.Token.Segment
import Stencil.Run.Render

namespace Stencil

namespace Lexer

-- A backslash is put before every delimiter.
def escapeDelimiters : List Char → List Char
  | [] => []
  | '<' :: '%' :: r => '\\' :: '<' :: '%' :: escapeDelimiters r
  | '$' :: '\x7b' :: r => '\\' :: '$' :: '\x7b' :: escapeDelimiters r
  | c :: r => c :: escapeDelimiters r

-- A delimiter is not left without its backslash, also where one character of it is missing.
theorem escapeDelimiters_head {cs r : List Char} {c : Char} (hc : c ≠ '\\')
    (h : escapeDelimiters cs = c :: r) : ∃ r', cs = c :: r' := by
  fun_cases escapeDelimiters cs with
  | case1 => cases h
  | case2 r' =>
      rw [escapeDelimiters] at h
      exact absurd (List.cons.inj h).1.symm hc
  | case3 r' =>
      rw [escapeDelimiters] at h
      exact absurd (List.cons.inj h).1.symm hc
  | case4 d r' h₁ h₂ =>
      rw [escapeDelimiters] at h
      · exact ⟨r', by rw [(List.cons.inj h).1]⟩
      · exact h₁
      · exact h₂

theorem escapeDelimiters_ne {cs r : List Char} {c d : Char}
    (hcd : c = '<' ∧ d = '%' ∨ c = '$' ∧ d = '\x7b') : escapeDelimiters cs ≠ c :: d :: r := by
  intro h
  have hc : c ≠ '\\' ∧ d ≠ '\\' := by
    rcases hcd with ⟨rfl, rfl⟩ | ⟨rfl, rfl⟩
    · decide
    · decide
  obtain ⟨r', rfl⟩ := escapeDelimiters_head hc.1 h
  -- Were the second character there, a backslash would stand in front.
  have hopen : ∀ x, r' ≠ d :: x := by
    rintro x rfl
    rcases hcd with ⟨rfl, rfl⟩ | ⟨rfl, rfl⟩
    · cases h
    · cases h
  rw [escapeDelimiters] at h
  · obtain ⟨x, hx⟩ := escapeDelimiters_head hc.2 (List.cons.inj h).2
    exact hopen x hx
  · rintro x rfl rfl
    rcases hcd with ⟨-, rfl⟩ | ⟨h', -⟩
    · exact hopen x rfl
    · cases h'
  · rintro x rfl rfl
    rcases hcd with ⟨h', -⟩ | ⟨-, rfl⟩
    · cases h'
    · exact hopen x rfl

-- All of it is one piece of text, and means what it was made from.
theorem segment_escapeDelimiters (cs : List Char) :
    segment (escapeDelimiters cs) = escapeDelimiters cs ∧
      behindSegment (escapeDelimiters cs) = [] ∧ unescape (escapeDelimiters cs) = cs := by
  fun_induction escapeDelimiters cs with
  | case1 => simp
  | case2 r ih => simp [ih]
  | case3 r ih => simp [ih]
  | case4 c r h₁ h₂ ih =>
      obtain ⟨hsegment, hbehind, hunescape⟩ := ih
      have hwhole : escapeDelimiters (c :: r) = c :: escapeDelimiters r := by
        rw [escapeDelimiters]
        · exact h₁
        · exact h₂
      have hopening : ∀ x, c = '<' → escapeDelimiters r = '%' :: x → False := by
        rintro x rfl hr
        exact escapeDelimiters_ne (.inl ⟨rfl, rfl⟩) (hwhole.trans (congrArg _ hr))
      have hplaceholder : ∀ x, c = '$' → escapeDelimiters r = '\x7b' :: x → False := by
        rintro x rfl hr
        exact escapeDelimiters_ne (.inr ⟨rfl, rfl⟩) (hwhole.trans (congrArg _ hr))
      have hbackslash₁ : ∀ x, c = '\\' → escapeDelimiters r = '<' :: '%' :: x → False :=
        fun _ _ => escapeDelimiters_ne (.inl ⟨rfl, rfl⟩)
      have hbackslash₂ : ∀ x, c = '\\' → escapeDelimiters r = '$' :: '\x7b' :: x → False :=
        fun _ _ => escapeDelimiters_ne (.inr ⟨rfl, rfl⟩)
      refine ⟨?_, ?_, ?_⟩
      · rw [segment, hsegment]
        all_goals assumption
      · rw [behindSegment, hbehind]
        all_goals assumption
      · rw [unescape, hunescape]
        all_goals assumption

-- The lexer at the end of a source that is text throughout.
def behind (source : List Char) (trim : Bool) : Lexer :=
  ⟨⟨[], Mark.start.past source⟩, .text, trim, false⟩

theorem next_behind (source : List Char) (trim : Bool) :
    (behind source trim).next =
      (.ok ⟨.endOfInput, .none, (Mark.start.past source).pos⟩, behind source trim) := by
  simp [behind, next, run, step, textStep, scanText, endToken, Cursor.pos]

theorem next_verbatim {text : List Char} (h : text ≠ []) (trim : Bool) :
    (start (String.ofList (escapeDelimiters text)) trim).next =
      (.ok ⟨.text, .text (String.ofList text), ⟨1, 1⟩⟩, behind (escapeDelimiters text) trim) := by
  obtain ⟨hsegment, hbehind, hunescape⟩ := segment_escapeDelimiters text
  simp [start, next, run, step, textStep, scanText_eq, hsegment, hbehind, hunescape, behind, h,
    Lexer.pos, Cursor.pos, Mark.start]

theorem after_behind (source : List Char) (trim : Bool) (n : Nat) :
    (behind source trim).after n = behind source trim := by
  induction n with
  | zero => rfl
  | succ n ih => rw [after, ih, next_behind]

-- There is one token of text, unless there is no text, and after it the input is over.
theorem tokens_verbatim (text : List Char) (trim : Bool) (n : Nat) :
    ((start (String.ofList (escapeDelimiters text)) trim).after n).next.1 =
      .ok (if n = 0 ∧ text ≠ [] then ⟨.text, .text (String.ofList text), ⟨1, 1⟩⟩
        else ⟨.endOfInput, .none, (Mark.start.past (escapeDelimiters text)).pos⟩) := by
  by_cases htext : text = []
  · subst htext
    rw [if_neg (by simp)]
    have hstart : start (String.ofList (escapeDelimiters [])) trim = behind [] trim := by
      simp [start, behind, escapeDelimiters]
    rw [hstart, after_behind, next_behind]
    rfl
  · cases n with
    | zero => rw [if_pos ⟨rfl, htext⟩, after, next_verbatim htext]
    | succ n => rw [if_neg (by simp), after_succ, next_verbatim htext, after_behind, next_behind]

end Lexer

namespace Template

open Lexer

theorem Makes.text {options : BuildOptions} {input : Parser.Input Sem} {s : String}
    (hsymbol : input.symbol = Terminal.text.id) (hvalue : input.value = .text s) (d : Draft) :
    Makes options (.n .statement) [input] (.stmt (.text s input.pos)) input.pos d d := by
  refine Makes.production .text (by decide) (Makes.token hsymbol d).single ?_
  intro handle hhandle
  unfold Build.action
  simp [Build.takeText, Build.takeAs, hhandle, hvalue]

-- Text is compiled into one statement that writes it, and nothing into none.
theorem compile_verbatim (config : Config) (text : List Char) :
    ∃ t, compile config (String.ofList (escapeDelimiters text)) = .ok t ∧
      t.root = if text = [] then [] else [.text (String.ofList text) ⟨1, 1⟩] := by
  have hend := next_of_token ⟨config.looseVar, true⟩
    (next_behind (escapeDelimiters text) config.trim)
  by_cases htext : text = []
  · subst htext
    have hnothing := @Makes.noStatements ⟨config.looseVar, true⟩ .empty
    have hstart : start (String.ofList (escapeDelimiters [])) config.trim =
        behind [] config.trim := by
      simp [start, behind, escapeDelimiters]
    exact ⟨_, compile_of_makes rfl hnothing (hstart ▸ hend) (.more hend (.last _ _)) rfl rfl, rfl⟩
  · have htoken := next_of_token ⟨config.looseVar, true⟩ (next_verbatim htext config.trim)
    have hmakes : Makes ⟨config.looseVar, true⟩ (.n .statement) _ _ _ .empty .empty :=
      @Makes.text _ (input ⟨.text, .text (String.ofList text), ⟨1, 1⟩⟩) _ rfl rfl _
    rw [if_neg htext]
    exact ⟨_, compile_of_makes rfl hmakes.oneStatement htoken
      (.more hend (.more hend (.last _ _))) rfl rfl, rfl⟩

-- Every text can be written down, with a backslash before every delimiter in it. It is read as one
-- token, and a template made of it shows exactly the text.
theorem text_verbatim (text : String) :
    (∀ trim n,
      ((start (String.ofList (escapeDelimiters text.toList)) trim).after n).next.1 =
        .ok (if n = 0 ∧ text ≠ "" then ⟨.text, .text text, ⟨1, 1⟩⟩
          else ⟨.endOfInput, .none, (Mark.start.past (escapeDelimiters text.toList)).pos⟩)) ∧
      ∀ config, ∃ t, compile config (String.ofList (escapeDelimiters text.toList)) = .ok t ∧
        ∀ natives fuel origin params store resolvers before,
          t.render natives fuel origin params ⟨store, resolvers, .text before⟩ =
            (.ok (), ⟨store, resolvers, .text (before ++ text)⟩) := by
  constructor
  · intro trim n
    have htokens := tokens_verbatim text.toList trim n
    simpa only [String.ofList_toList, ne_eq, String.toList_eq_nil_iff] using htokens
  · intro config
    obtain ⟨t, hcompile, hroot⟩ := compile_verbatim config text.toList
    refine ⟨t, hcompile, ?_⟩
    intro natives fuel origin params store resolvers before
    simp only [String.ofList_toList, String.toList_eq_nil_iff] at hroot
    unfold render
    rw [hroot]
    split
    next hempty =>
      subst hempty
      rw [String.append_empty]
      rfl
    next => rfl

end Template

end Stencil
