import Stencil.Proofs.Language.Naming
import Stencil.Proofs.Parser.Spanned
import Stencil.Proofs.Template.Broken
import Stencil.Proofs.Token.Given
import Stencil.Proofs.Token.Reading

namespace Stencil

open Stencil.Parser

namespace Lexer

-- From the one lexer to the other, names are given out that have commas between them. The first of
-- them stands at the given place.
inductive GivesNames : Lexer → List String → Position → Lexer → Prop
  | one {l l' : Lexer} {name : String} {pos : Position}
      (given : l.next = (.ok ⟨.identifier, .identifier name, pos⟩, l')) :
      GivesNames l [name] pos l'
  | more {l l₁ l₂ l' : Lexer} {names : List String} {name : String} {pos pos' : Position}
      {comma : Token} (before : GivesNames l names pos l₁) (separated : l₁.next = (.ok comma, l₂))
      (hcomma : comma.terminal = .comma)
      (given : l₂.next = (.ok ⟨.identifier, .identifier name, pos'⟩, l')) :
      GivesNames l (names ++ [name]) pos l'

theorem Gives.spelled {source : String} {trim : Bool} {name : String} {pos : Position}
    (h : (start source trim).Gives ⟨.identifier, .identifier name, pos⟩) :
    ∃ before after, source.toList = before ++ name.toList ++ after ∧
      pos = Position.behind before := by
  obtain ⟨l, l', hleads, hnext⟩ := h
  obtain ⟨read, hover⟩ := hleads.reaches
  have hmark : l.cursor.mark = Mark.start.past read := hover.mark
  obtain ⟨passed, spelled, hcovers⟩ := next_covers hnext (by simp) ⟨read, hmark⟩
  have hspelled : spelled = name.toList := by
    cases hcovers.spelling
    rfl
  subst hspelled
  refine ⟨read ++ passed, l'.cursor.rest, ?_, ?_⟩
  · have hsource : source.toList = read ++ l.cursor.rest := hover.rest
    rw [hsource, hcovers.rest]
    simp only [List.append_assoc]
  · have hpos := hcovers.pos
    rw [hmark, ← Mark.past_append, Mark.pos_past_start] at hpos
    exact hpos

-- Somewhere the head of a function is given out that has the name more than once among its
-- parameters. The first of them stands at the given place.
inductive GivesTwice (start : Lexer) (name : String) (pos : Position) : Prop
  | head {l₀ l₁ l₂ l₃ l₄ : Lexer} {keyword opening closing : Token} {names : List String}
      (leads : start.Leads l₀) (function : l₀.next = (.ok keyword, l₁))
      (hkeyword : keyword.terminal = .kwFunction) (opens : l₁.next = (.ok opening, l₂))
      (hopening : opening.terminal = .leftParen) (parameters : l₂.GivesNames names pos l₃)
      (closes : l₃.next = (.ok closing, l₄)) (hclosing : closing.terminal = .rightParen)
      (twice : 1 < names.count name)

end Lexer

namespace Template

-- There is an identifier at the place that is written as the name.
structure NameAt (source : String) (trim : Bool) (name : String) (pos : Position) : Prop where
  given : (Lexer.start source trim).Gives ⟨.identifier, .identifier name, pos⟩
  written : ∃ before after, source.toList = before ++ name.toList ++ after ∧
    pos = Position.behind before

-- What was read for a symbol: a token for a terminal, and a list of names for the parameters of a
-- function.
def ReadFor : LanguageSymbol → Sem → Position → Lexer → Lexer → Prop
  | .t t, v, pos, l, l' => ∃ lexeme, l.next = (.ok ⟨t, lexeme, pos⟩, l') ∧ v = .ofLexeme lexeme
  | .n .parameters, .params names, pos, l, l' => l.GivesNames names pos l'
  | _, _, _, _, _ => True

def Reading (symbol : Symbol) (v : Sem) (pos : Position) (l l' : Lexer) : Prop :=
  ∀ s : LanguageSymbol, s.symbol = symbol → ReadFor s v pos l l'

variable {options : BuildOptions} {start : Lexer}

-- What was read for one place of a right side.
theorem readFor_of_spans {p : Production} {handle : Build.Handle} {l l' : Lexer}
    (h : Spans Reading start.Leads p.rule.right handle.frames l l') {i : Nat} {s : LanguageSymbol}
    (hs : p.sides.2[i]? = some s) :
    ∃ v first last, handle.value? i = some v ∧ start.Leads first ∧
      ReadFor s v (handle.posAt i) first last := by
  have hright : p.rule.right[i]? = some s.symbol := by simp [Production.rule, hs]
  obtain ⟨frame, first, last, hframe, hknown, hread⟩ := h.get hright
  refine ⟨frame.value, first, last, by simp [Handle.value?, hframe], hknown, ?_⟩
  rw [show handle.posAt i = frame.pos by simp [Handle.posAt, hframe]]
  exact hread s rfl

theorem lexeme_eq_identifier {lexeme : Lexeme} {name : String}
    (h : Sem.ofLexeme lexeme = .identifier name) : lexeme = .identifier name := by
  cases lexeme <;> cases h
  rfl

-- The parameters of a function are read one after the other.
theorem parameters_read {p : Production} (hp : p.sides.1 = .parameters) {handle : Build.Handle}
    {l l' : Lexer} (h : Spans Reading start.Leads p.rule.right handle.frames l l') {d d' : Draft}
    {names : List String} (haction : Build.action options p handle d = .ok (.params names, d')) :
    l.GivesNames names handle.pos l' := by
  obtain ⟨frames⟩ := handle
  cases p with
  | firstParameter =>
      obtain ⟨name, _, htake, hpure⟩ := Build.bind_eq_ok.mp haction
      obtain ⟨hvalue, rfl⟩ := Build.takeIdent_eq_ok htake
      cases hpure
      obtain - | ⟨-, word, ⟨-⟩⟩ := h
      obtain ⟨lexeme, hnext, hlexeme⟩ := word (.t .identifier) rfl
      obtain rfl := lexeme_eq_identifier (hlexeme.symm.trans (Option.some.inj hvalue))
      exact .one hnext
  | moreParameters =>
      obtain ⟨before, _, htakeAll, hmore⟩ := Build.bind_eq_ok.mp haction
      obtain ⟨name, _, htake, hpure⟩ := Build.bind_eq_ok.mp hmore
      have hvalues := (Build.takeParams_eq_ok htakeAll).1
      have hvalue := (Build.takeIdent_eq_ok htake).1
      cases hpure
      obtain - | ⟨-, first, - | ⟨-, comma, - | ⟨-, word, ⟨-⟩⟩⟩⟩ := h
      have hbefore := first (.n .parameters) rfl
      rw [Option.some.inj hvalues] at hbefore
      obtain ⟨_, hcomma, -⟩ := comma (.t .comma) rfl
      obtain ⟨lexeme, hnext, hlexeme⟩ := word (.t .identifier) rfl
      obtain rfl := lexeme_eq_identifier (hlexeme.symm.trans (Option.some.inj hvalue))
      exact .more hbefore hcomma rfl hnext
  | _ => cases hp

theorem environment_spanned :
    (environment options).Spanned templateGrammar Reading start.Leads where
  token := by
    intro l input l' hl h
    obtain ⟨t, hnext, rfl⟩ := nextInput_eq_ok h
    refine ⟨?_, hl.next hnext⟩
    intro s hs
    obtain rfl : s = .t t.terminal := LanguageSymbol.symbol_injective hs
    exact ⟨t.lexeme, hnext, rfl⟩
  reduce := by
    intro p rule handle memory reduction memory' l l' hrule hspans hreduce
    obtain ⟨production, hp, rfl⟩ := exists_production hrule
    have hreduce : Build.reduce options p handle memory = (.ok reduction, memory') := hreduce
    rw [reduce_eq hp] at hreduce
    split at hreduce
    · rename_i value d' haction
      cases hreduce
      intro s hs
      obtain rfl : s = .n production.sides.1 := LanguageSymbol.symbol_injective hs
      cases hside : production.sides.1 with
      | parameters =>
          cases hvalue : value with
          | params names => exact parameters_read hside hspans (hvalue ▸ haction)
          | _ => trivial
      | _ => trivial
    · cases hreduce

theorem reading_located {e : ParseError} {name : String}
    (h : Complaint (environment options) templateGrammar Reading start.Leads e)
    (hname : e.fault.name? = some name) :
    start.Gives ⟨.identifier, .identifier name, e.pos⟩ ∨
      e.fault = .duplicateVariable name ∧ start.GivesTwice name e.pos := by
  cases h with
  | @token l l' _ next =>
      have hanswers := l.next_answers
      rw [nextInput_eq_error next] at hanswers
      have hspelling := hanswers.fault rfl
      cases hfault : e.fault <;> rw [hfault] at hname hspelling <;> cases hspelling <;> cases hname
  | @action p rule handle memory memory' l l' hrule spans reduce =>
      obtain ⟨production, hp, rfl⟩ := exists_production hrule
      have hreduce : Build.reduce options p handle memory = (.error e, memory') := reduce
      rw [reduce_eq hp] at hreduce
      split at hreduce
      · cases hreduce
      · rename_i e' haction
        cases hreduce
        cases Build.action_points options memory _ haction name hname with
        | identifier i hsymbol hvalue hpos =>
            obtain ⟨v, first, last, hv, hknown, lexeme, hnext, hlexeme⟩ :=
              readFor_of_spans spans hsymbol
            rw [hvalue] at hv
            obtain rfl := lexeme_eq_identifier (hlexeme.symm.trans (Option.some.inj hv).symm)
            exact .inl ⟨first, last, hknown, hpos ▸ hnext⟩
        | parameter hfunction hfault names hvalue hcount hpos =>
            subst hfunction
            obtain ⟨frames⟩ := handle
            obtain - | ⟨known, function, - | ⟨-, opening, - | ⟨-, params, - | ⟨-, closing, -⟩⟩⟩⟩ :=
              spans
            obtain ⟨_, hfunction, -⟩ := function (.t .kwFunction) rfl
            obtain ⟨_, hopening, -⟩ := opening (.t .leftParen) rfl
            obtain ⟨_, hclosing, -⟩ := closing (.t .rightParen) rfl
            have hparams := params (.n .parameters) rfl
            rw [Option.some.inj hvalue] at hparams
            rw [hpos]
            exact .inr ⟨hfault, .head known hfunction rfl hopening rfl hparams hclosing rfl hcount⟩
  | unexpected hfault =>
      rw [hfault] at hname
      cases hname

theorem compile_located {config : Config} {source : String} {e : ParseError} {name : String}
    (h : compile config source = .error e) (hname : e.fault.name? = some name) :
    NameAt source config.trim name e.pos ∨
      e.fault = .duplicateVariable name ∧
        (Lexer.start source config.trim).GivesTwice name e.pos := by
  obtain ⟨r, hparse, -⟩ := parse_answers ⟨config.looseVar, true⟩ source config.trim
  have haccounted := environment_spanned.parse (environment_serves _) templateGrammar_startUnused
    environment_acceptsStart .here hparse
  rw [compile_eq_of_parse hparse] at h
  unfold ofResult at h
  split at h
  · rename_i hvalue
    cases h
    rw [hvalue] at haccounted
    exact (reading_located haccounted hname).imp_left fun hgives => ⟨hgives, hgives.spelled⟩
  · cases h
  · cases h
    cases hname

section Repeated

variable {e : ParseError} {tokens : List (Input Sem)} {names : List String} {pos : Position}
  {d d' : Draft}

theorem Makes.parameter (name : String) (pos : Position) (d : Draft) :
    Makes options (.n .parameters) [input ⟨.identifier, .identifier name, pos⟩] (.params [name]) pos d
      d := by
  refine Makes.production .firstParameter (by decide) (Makes.token rfl d).single ?_
  intro handle hhandle
  unfold Build.action
  simp [Build.takeIdent, Build.takeAs, hhandle, input, Sem.ofLexeme]

theorem Makes.anotherParameter (h : Makes options (.n .parameters) tokens (.params names) pos d d')
    (name : String) (comma place : Position) :
    Makes options (.n .parameters)
      (tokens ++ [input ⟨.comma, .none, comma⟩, input ⟨.identifier, .identifier name, place⟩])
      (.params (names ++ [name])) pos d d' := by
  have hcomma : (input ⟨.comma, .none, comma⟩).symbol = Terminal.comma.id := rfl
  have hword : (input ⟨.identifier, .identifier name, place⟩).symbol = Terminal.identifier.id := rfl
  have hparts := EvaluatesAll.cons h
    (EvaluatesAll.cons (Makes.token hcomma _) (Makes.token hword _).single)
  refine Makes.production .moreParameters (by decide) hparts ?_
  intro handle hhandle
  unfold Build.action
  simp [Build.takeParams, Build.takeIdent, Build.takeAs, hhandle, input, Sem.ofLexeme]

-- A statement that is a function without a body, whose parameters cannot be declared.
theorem Breaks.function (h : Makes options (.n .parameters) tokens (.params names) pos d d')
    (hnames : Build.declareAll pos names (d'.openFunction []) = .error e)
    {keyword opening closing leftBrace rightBrace semicolon : Input Sem}
    (hkeyword : keyword.symbol = Terminal.kwFunction.id)
    (hopening : opening.symbol = Terminal.leftParen.id)
    (hclosing : closing.symbol = Terminal.rightParen.id)
    (hleft : leftBrace.symbol = Terminal.leftBrace.id)
    (hright : rightBrace.symbol = Terminal.rightBrace.id)
    (hsemicolon : semicolon.symbol = Terminal.semicolon.id) :
    Breaks options e (.n .statement)
      (keyword :: opening :: (tokens ++ [closing]) ++ [leftBrace, rightBrace] ++ [semicolon]) d := by
  have hparts := EvaluatesAll.cons (Makes.token hkeyword d) (EvaluatesAll.cons
    (Makes.token hopening d) (EvaluatesAll.cons h (Makes.token hclosing d').single))
  have hhead : Breaks options e (.n .functionHead) (keyword :: opening :: (tokens ++ [closing])) d := by
    refine Breaks.here .functionHead hparts fun handle hhandle => ?_
    have hparams : Build.takeParams handle 2 d' = .ok (names, d') := by
      simp [Build.takeParams, Build.takeAs, hhandle]
    refine Build.bind_eq_error.mpr (.inr ⟨names, d', hparams, ?_⟩)
    refine Build.bind_eq_error.mpr (.inr ⟨(), d'.openFunction [], rfl, ?_⟩)
    refine Build.bind_eq_error.mpr (.inl ?_)
    simpa [hhandle] using hnames
  have hnone := derives_production .noStatements .nil
  have hblock := derives_production .block (.cons
    (derives_production .blockOpen (.cons (derives_token hleft) .nil))
    (.cons hnone (.cons (derives_token hright) .nil)))
  have hfunction := Breaks.first .function rfl hhead (.cons hblock .nil)
  have hprimary : Breaks options e (.n Precedence.primary.nonterminal) _ d :=
    hfunction.pass .functionOperand rfl
  exact Breaks.first .expressionStatement rfl hprimary.expression
    (.cons (derives_token hsemicolon) .nil)

-- The tokens of a statement that is a function with one name twice among its parameters, but not
-- as the first of them.
def repeated : List Token := [
  ⟨.kwFunction, .none, ⟨1, 4⟩⟩, ⟨.leftParen, .none, ⟨1, 12⟩⟩, ⟨.identifier, .identifier "a", ⟨1, 13⟩⟩,
  ⟨.comma, .none, ⟨1, 14⟩⟩, ⟨.identifier, .identifier "b", ⟨1, 16⟩⟩, ⟨.comma, .none, ⟨1, 17⟩⟩,
  ⟨.identifier, .identifier "b", ⟨1, 19⟩⟩, ⟨.rightParen, .none, ⟨1, 20⟩⟩,
  ⟨.leftBrace, .none, ⟨1, 22⟩⟩, ⟨.rightBrace, .none, ⟨1, 23⟩⟩, ⟨.semicolon, .none, ⟨1, 24⟩⟩]

theorem compile_repeated :
    compile {} "<% function(a, b, b) \x7b\x7d; %>" = .error ⟨⟨1, 13⟩, .duplicateVariable "b"⟩ := by
  have hgives : (Lexer.start "<% function(a, b, b) \x7b\x7d; %>" true).GivesAll
      (repeated ++ [⟨.endOfInput, .none, ⟨1, 28⟩⟩, ⟨.endOfInput, .none, ⟨1, 28⟩⟩]) :=
    ⟨rfl, rfl, rfl, rfl, rfl, rfl, rfl, rfl, rfl, rfl, rfl, rfl, rfl, trivial⟩
  have hparams := ((@Makes.parameter building "a" ⟨1, 13⟩ .empty).anotherParameter "b" ⟨1, 14⟩
    ⟨1, 16⟩).anotherParameter "b" ⟨1, 17⟩ ⟨1, 19⟩
  have hdeclare : Build.declareAll ⟨1, 13⟩ ["a", "b", "b"] (Draft.empty.openFunction []) =
      .error ⟨⟨1, 13⟩, .duplicateVariable "b"⟩ := rfl
  have hstatement : Breaks building ⟨⟨1, 13⟩, .duplicateVariable "b"⟩ (.n .statement)
      (repeated.map input) .empty := by
    exact Breaks.function hparams hdeclare rfl rfl rfl rfl rfl rfl
  exact compile_of_breaks rfl hstatement.oneStatement hgives rfl rfl

theorem repeated_elsewhere :
    ¬ (Lexer.start "<% function(a, b, b) \x7b\x7d; %>" true).Gives
      ⟨.identifier, .identifier "b", ⟨1, 13⟩⟩ := by
  intro h
  obtain ⟨before, after, hsource, hpos⟩ := h.spelled
  -- Only the letter itself could stand there, and it does not.
  have hletters : ∀ n < 28, "<% function(a, b, b) \x7b\x7d; %>".toList[n]? = some 'b' →
      Position.behind ("<% function(a, b, b) \x7b\x7d; %>".toList.take n) ≠ ⟨1, 13⟩ := by
    decide
  have hlength := congrArg List.length hsource
  have hname : ("b" : String).toList = ['b'] := rfl
  rw [hname] at hsource hlength
  have hsize : "<% function(a, b, b) \x7b\x7d; %>".toList.length = 27 := rfl
  simp only [hsize, List.length_append, List.length_singleton] at hlength
  refine hletters before.length (by omega) ?_ ?_
  · rw [hsource]
    simp
  · rw [hsource, hpos]
    simp

end Repeated

-- An error about a name that nobody declared, that is declared already or that is no label stands at
-- an identifier of that name. But for the names of parameters: if a function has one more than
-- once, the error stands at its first parameter.
theorem names_located {config : Config} {source : String} {e : ParseError}
    (h : compile config source = .error e) :
    (∀ name, e.fault = .undeclaredVariable name ∨ e.fault = .unknownLabel name →
      NameAt source config.trim name e.pos) ∧
    ∀ name, e.fault = .duplicateVariable name →
      NameAt source config.trim name e.pos ∨
        (Lexer.start source config.trim).GivesTwice name e.pos := by
  constructor
  · intro name hfault
    have hname : e.fault.name? = some name := by
      rcases hfault with hfault | hfault
      · rw [hfault]
        rfl
      · rw [hfault]
        rfl
    refine (compile_located h hname).resolve_right fun hduplicate => ?_
    rw [hduplicate.1] at hfault
    simp at hfault
  · intro name hfault
    have hname : e.fault.name? = some name := by
      rw [hfault]
      rfl
    exact (compile_located h hname).imp_right And.right

-- What stands at the place is the name of the first parameter.
theorem names_located_repeated :
    compile {} "<% function(a, b, b) \x7b\x7d; %>" = .error ⟨⟨1, 13⟩, .duplicateVariable "b"⟩ ∧
      (Lexer.start "<% function(a, b, b) \x7b\x7d; %>" true).GivesTwice "b" ⟨1, 13⟩ := by
  refine ⟨compile_repeated, ?_⟩
  have hlocated := (names_located compile_repeated).2 "b" rfl
  exact hlocated.resolve_left fun hname => repeated_elsewhere hname.given

theorem repeated_parameter_misplaced :
    compile {} "<% function(a, b, b) \x7b\x7d; %>" = .error ⟨⟨1, 13⟩, .duplicateVariable "b"⟩ ∧
      ¬ (Lexer.start "<% function(a, b, b) \x7b\x7d; %>" ({} : Config).trim).Gives
        ⟨.identifier, .identifier "b", ⟨1, 13⟩⟩ :=
  ⟨compile_repeated, repeated_elsewhere⟩

end Template

end Stencil
