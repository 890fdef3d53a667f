import Stencil.Proofs.Formula.Built

namespace Stencil

open Stencil.Parser Template

section

variable {ws : List Written} {names : List String} {e : (String → Nat) → Expr}

theorem Yields.expression {p : Precedence} (h : Yields p.nonterminal ws names e) :
    Yields .expression ws names e := by
  intro seen inputs hseen hinputs
  obtain ⟨built, pos, hmakes, hbuilt⟩ := h _ _ hseen hinputs
  exact ⟨built, pos, hmakes.expression, hbuilt⟩

-- With its parentheses, if it needs them, an expression can stand where it is put.
theorem Yields.enclose {actual : Precedence} (required : Precedence)
    (h : Yields actual.nonterminal ws names e) :
    Yields required.nonterminal (enclose required actual ws) names e := by
  unfold Stencil.enclose
  split
  · have hprimary :
        Yields Precedence.primary.nonterminal (Written.leftParen :: ws ++ [Written.rightParen]) names e :=
      h.expression.parenthesised
    refine hprimary.lift ?_
    cases required <;> decide
  · rename_i hle
    exact h.lift (by omega)

end

namespace Formula

theorem yields_name (x : Identifier) :
    Yields .primary [.name x] [x.text] fun slot => .var (slot x.text) ⟨0, 0⟩ := by
  intro seen inputs hseen hinputs
  obtain ⟨word, rest, rfl, hword, hrest⟩ := GivenAll.cons hinputs
  cases hrest
  refine ⟨.var ((note seen x.text).idxOf x.text) word.pos, word.pos, ?_, ?_⟩
  · refine Makes.production .readVariable (by decide) (hword.makes _).single ?_
    intro handle hhandle
    unfold Build.action
    simp [Build.takeIdent, Build.takeAs, hhandle, Written.lexeme, Sem.ofLexeme,
      resolve_ofNames hseen]
  · intro all hall
    have hsame := idxOf_of_begins hall (mem_note seen x.text)
    exact congrArg (Expr.var · ⟨0, 0⟩) hsame.symm

-- A literal is a token of its own, whose production makes it a value.
theorem yields_literal {p : Production} {w : Written} {value : Literal}
    (hsides : p.sides = (.primary, [.t w.terminal])) (hne : p ≠ .start)
    (hacts : ∀ pos d, Acts building p [(.ofLexeme w.lexeme, pos)] d (.expr (.direct value pos)) d) :
    Yields .primary [w] [] fun _ => .direct value ⟨0, 0⟩ := by
  intro seen inputs hseen hinputs
  obtain ⟨token, rest, rfl, htoken, hrest⟩ := GivenAll.cons hinputs
  cases hrest
  refine ⟨.direct value token.pos, token.pos, ?_, fun _ => rfl⟩
  have hparts : MakesAll building p.sides.2 [token] [(.ofLexeme w.lexeme, token.pos)]
      (.ofNames seen) (.ofNames seen) := by
    rw [hsides]
    exact (htoken.makes _).single
  have hmade := Makes.production p hne hparts (hacts token.pos _)
  rwa [hsides] at hmade

theorem yields_int (n : Fin (2 ^ 63)) :
    Yields .primary [.number n] [] fun _ => .direct (.int (Int64.ofNat n)) ⟨0, 0⟩ := by
  refine yields_literal (p := .integer) rfl (by decide) fun pos d handle hhandle => ?_
  unfold Build.action
  simp [Build.literal, Build.takeLiteral, Build.takeAs, hhandle, Written.lexeme,
    Sem.ofLexeme]

theorem yields_str (s : String) :
    Yields .primary [.quoted s] [] fun _ => .direct (.str s) ⟨0, 0⟩ := by
  refine yields_literal (p := .string) rfl (by decide) fun pos d handle hhandle => ?_
  unfold Build.action
  simp [Build.literal, Build.takeLiteral, Build.takeAs, hhandle, Written.lexeme,
    Sem.ofLexeme]

theorem yields_bool (b : Bool) :
    Yields .primary [.bool b] [] fun _ => .direct (.bool b) ⟨0, 0⟩ := by
  cases b with
  | true =>
      refine yields_literal (p := .literalTrue) rfl (by decide) fun pos d handle hhandle => ?_
      unfold Build.action
      simp [Build.literal, hhandle]
  | false =>
      refine yields_literal (p := .literalFalse) rfl (by decide) fun pos d handle hhandle => ?_
      unfold Build.action
      simp [Build.literal, hhandle]

theorem yields_null : Yields .primary [.null] [] fun _ => .direct .null ⟨0, 0⟩ := by
  refine yields_literal (p := .literalNull) rfl (by decide) fun pos d handle hhandle => ?_
  unfold Build.action
  simp [Build.literal, hhandle]

theorem yields_emptyList :
    Yields .primary [.leftBracket, .rightBracket] [] fun _ => .list [] ⟨0, 0⟩ := by
  intro seen inputs hseen hinputs
  obtain ⟨opening, others, rfl, hopening, hothers⟩ := GivenAll.cons hinputs
  obtain ⟨closing, rest, rfl, hclosing, hrest⟩ := GivenAll.cons hothers
  cases hrest
  refine ⟨.list [] opening.pos, opening.pos, ?_, fun _ => rfl⟩
  have hparts := EvaluatesAll.cons (hopening.makes (.ofNames seen)) (hclosing.makes _).single
  refine Makes.production .emptyList (by decide) hparts ?_
  intro handle hhandle
  unfold Build.action
  simp [hhandle]

-- The two operators that may leave out their right side.
theorem yields_logical {p : Production} {w : Written} {s l r : Nonterminal}
    {ws ws' : List Written} {names names' : List String} {e e' : (String → Nat) → Expr}
    (hsides : p.sides = (s, [.n l, .t w.terminal, .n r])) (hne : p ≠ .start)
    (make : Expr → Expr → Position → Expr)
    (hmake : ∀ a b pos, (make a b pos).unplaced = make a.unplaced b.unplaced ⟨0, 0⟩)
    (haction : ∀ handle, Build.action building p handle = Build.logical building make handle)
    (hl : Yields l ws names e) (hr : Yields r ws' names' e') :
    Yields s (ws ++ w :: ws') (names ++ names')
      fun slot => (make (e slot) (e' slot) ⟨0, 0⟩).optimize := by
  refine Yields.between hsides hne (fun a b pos => (make a b pos).optimize) ?_ ?_ hl hr
  · intro a b pos
    rw [Expr.optimize_unplaced, hmake]
  · intro a b pa pb v pos d handle hhandle
    simp [haction, Build.logical, Build.takeExpr, Build.takeAs, Build.folded, hhandle]

theorem yields_binary (op : BinaryOp) {ws ws' : List Written} {names names' : List String}
    {e e' : (String → Nat) → Expr} (hl : Yields op.leftPrecedence.nonterminal ws names e)
    (hr : Yields op.precedence.next.nonterminal ws' names' e') :
    Yields op.precedence.nonterminal (ws ++ Written.binary op :: ws') (names ++ names')
      fun slot => (Expr.binary op (e slot) (e' slot) ⟨0, 0⟩).optimize := by
  refine Yields.between op.sides_production (by cases op <;> decide)
    (fun a b pos => (Expr.binary op a b pos).optimize) ?_ ?_ hl hr
  · intro a b pos
    rw [Expr.optimize_unplaced, Expr.unplaced]
  · intro a b pa pb v pos d handle hhandle
    have haction : Build.action building op.production handle =
        Build.binary building op handle := by
      cases op <;> rfl
    simp [haction, Build.binary, Build.takeExpr, Build.takeAs, Build.folded, hhandle]

mutual

-- What is written of an expression is read as that expression.
theorem yields (e : Formula) :
    Yields e.precedence.nonterminal e.written e.names fun slot => e.expr slot := by
  cases e with
  | name x => exact yields_name x
  | int n => exact yields_int n
  | str s => exact yields_str s
  | bool b => exact yields_bool b
  | null => exact yields_null
  | list items =>
      by_cases hitems : items = []
      · subst hitems
        exact yields_emptyList
      · exact Yields.list (yieldsAll items hitems)
  | property target key =>
      have htarget : Yields .postfixExpr _ _ _ := (yields target).enclose .suffixed
      exact htarget.property key
  | index target key =>
      have htarget : Yields .postfixExpr _ _ _ := (yields target).enclose .suffixed
      exact htarget.index (yields key).expression
  | call callee args =>
      have hcallee : Yields .postfixExpr _ _ _ := (yields callee).enclose .suffixed
      by_cases hargs : args = []
      · subst hargs
        have hcall := hcallee.callNothing
        simp only [written, writtenAll, names, namesAll, expr, exprs, List.append_nil,
          List.append_assoc, List.cons_append, List.nil_append]
        exact hcall
      · exact hcallee.call (yieldsAll args hargs)
  | unary op operand => exact Yields.unary op ((yields operand).enclose .unary)
  | binary op left right =>
      exact yields_binary op ((yields left).enclose _) ((yields right).enclose _)
  | and left right =>
      exact yields_logical (p := .and) (w := .and) rfl (by decide) .and (fun _ _ _ => rfl)
        (fun _ => rfl) ((yields left).enclose .and) ((yields right).enclose Precedence.and.next)
  | or left right =>
      exact yields_logical (p := .or) (w := .or) rfl (by decide) .or (fun _ _ _ => rfl)
        (fun _ => rfl) ((yields left).enclose .or) ((yields right).enclose Precedence.or.next)

theorem yieldsAll (es : List Formula) (h : es ≠ []) :
    YieldsAll (writtenAll es) (namesAll es) fun slot => exprs slot es := by
  cases es with
  | nil => exact absurd rfl h
  | cons e rest => exact yieldsRest rest (YieldsAll.one (yields e).expression)

-- What is written behind some expressions is read as what comes behind them.
theorem yieldsRest (rest : List Formula) {ws : List Written} {names : List String}
    {es : (String → Nat) → List Expr} (h : YieldsAll ws names es) :
    YieldsAll (ws ++ writtenRest rest) (names ++ namesAll rest)
      fun slot => es slot ++ exprs slot rest := by
  cases rest with
  | nil => simpa [writtenRest, namesAll, exprs] using h
  | cons e rest =>
      have hmore := yieldsRest rest (h.more (yields e).expression)
      simpa [writtenRest, namesAll, exprs] using hmore

end

-- The tokens on paper with a blank before each of them.
def spaced (ws : List Written) : List Char := ws.flatMap fun w => ' ' :: w.spelling.toList

theorem toList_intercalate {ws : List Written} (h : ws ≠ []) :
    ' ' :: (" ".intercalate (ws.map Written.spelling)).toList = spaced ws := by
  induction ws with
  | nil => exact absurd rfl h
  | cons w rest ih =>
      cases rest with
      | nil => simp [spaced]
      | cons w' rest =>
          have hrest := ih (by simp)
          simp only [List.map_cons, String.intercalate_cons_cons, String.toList_append] at hrest ⊢
          rw [spaced, List.flatMap_cons]
          simpa [spaced] using hrest

-- A blank stands before whatever comes next.
theorem spaced_append (ws : List Written) : ∃ rest, spaced ws ++ [' ', '\x7d'] = ' ' :: rest := by
  cases ws with
  | nil => exact ⟨_, rfl⟩
  | cons w ws => exact ⟨_, by simp only [spaced, List.flatMap_cons, List.cons_append]; rfl⟩

theorem written_ne_nil (e : Formula) : e.written ≠ [] := by
  cases e <;> simp [written]

theorem toList_source (e : Formula) :
    e.source.toList = '$' :: '\x7b' :: (spaced e.written ++ [' ', '\x7d']) := by
  simp [source, ← toList_intercalate e.written_ne_nil]

end Formula

namespace Template

-- A lexer gives out all that is written, the end of the placeholder and the end of input, which it
-- repeats.
theorem ahead_written (options : BuildOptions) (ws : List Written) (trim trimAfter : Bool)
    (m : Mark) (t : Input Sem) :
    ∃ inputs closing last after, GivenAll ws inputs ∧
      closing.symbol = Terminal.rightBrace.id ∧ last.symbol = Terminal.endOfInput.id ∧
      after.symbol = Terminal.endOfInput.id ∧
      Ahead (environment options) t
        (Lexer.inside trim trimAfter (Formula.spaced ws ++ [' ', '\x7d']) m)
        (t :: inputs ++ [closing, last, after]) := by
  induction ws generalizing m t with
  | nil =>
      have hclosing := next_of_token options (Lexer.next_closing trim trimAfter m)
      have hend := next_of_token options
        (Lexer.next_end trim trimAfter ((m.after ' ').after '\x7d'))
      exact ⟨[], _, _, _, .nil, rfl, rfl, rfl,
        .more hclosing (.more hend (.more hend (.last _ _)))⟩
  | cons w ws ih =>
      obtain ⟨rest, hrest⟩ := Formula.spaced_append ws
      obtain ⟨pos, m', hnext⟩ := w.spells trim trimAfter rest m
      obtain ⟨inputs, closing, last, after, hinputs, hclosing, hlast, hafter, hahead⟩ :=
        ih m' (input ⟨w.terminal, w.lexeme, pos⟩)
      refine ⟨input ⟨w.terminal, w.lexeme, pos⟩ :: inputs, closing, last, after,
        List.Forall₂.cons ⟨rfl, rfl⟩ hinputs, hclosing, hlast, hafter, ?_⟩
      have hchars : Formula.spaced (w :: ws) ++ [' ', '\x7d'] =
          ' ' :: w.spelling.toList ++ ' ' :: rest := by
        rw [← hrest]
        simp [Formula.spaced]
      rw [hrest] at hahead
      rw [hchars]
      exact .more (next_of_token options hnext) hahead

theorem Makes.placeholder {options : BuildOptions} {tokens : List (Input Sem)} {e : Expr}
    {pos : Position} {d d' : Draft}
    (h : Makes options (.n .expression) tokens (.expr e) pos d d') {opening closing : Input Sem}
    (hopening : opening.symbol = Terminal.placeholder.id)
    (hclosing : closing.symbol = Terminal.rightBrace.id) :
    Makes options (.n .statement) (opening :: tokens ++ [closing])
      (.stmt (.placeholder e opening.pos)) opening.pos d d' := by
  have hparts := EvaluatesAll.cons (Makes.token hopening d)
    (EvaluatesAll.cons h (Makes.token hclosing d').single)
  refine Makes.production .placeholder (by decide) hparts ?_
  intro handle hhandle
  unfold Build.action
  simp [Build.takeExpr, Build.takeAs, hhandle]

-- An expression that is written down is compiled to itself: its names are the parameters in the
-- order in which they occur first, and operators on literals are folded.
theorem compile_written (config : Config) (hloose : config.looseVar = true) (e : Formula) :
    ∃ t built pos, compile config e.source = .ok t ∧ t.root = [.placeholder built pos] ∧
      built.unplaced = e.expr (e.params.idxOf ·) ∧ t.params = e.params.zipIdx ∧
      t.frameSize = e.params.length := by
  obtain ⟨inputs, closing, last, after, hinputs, hclosing, hlast, hafter, hahead⟩ :=
    ahead_written building e.written config.trim false
      ((Mark.start.after '$').after '\x7b') (input ⟨.placeholder, .none, ⟨1, 1⟩⟩)
  have hopening := Lexer.next_opening config.trim (Formula.spaced e.written ++ [' ', '\x7d'])
  have hstart : Lexer.start e.source config.trim =
      ⟨⟨'$' :: '\x7b' :: (Formula.spaced e.written ++ [' ', '\x7d']), .start⟩, .text, config.trim,
        false⟩ := by
    rw [Lexer.start, e.toList_source]
  rw [← hstart] at hopening
  obtain ⟨built, pos, hmakes, hbuilt⟩ := e.yields.expression [] inputs .nil hinputs
  have hmark : (input ⟨.placeholder, .none, ⟨1, 1⟩⟩).symbol = Terminal.placeholder.id := rfl
  have hstatement := hmakes.placeholder hmark hclosing
  have hcompile := compile_of_makes (by rw [hloose]) hstatement.oneStatement
    (next_of_token building hopening) (by simpa using hahead) hlast hafter
  refine ⟨_, built, ⟨1, 1⟩, hcompile, rfl, hbuilt List.prefix_rfl, ?_, ?_⟩
  · simp [Draft.ofNames, Formula.params]
  · rfl

-- A name, and a product of literals that is worked out.
def sampleFormula : Formula :=
  .binary .plus (.name ⟨"a", by decide, by decide, by decide⟩) (.binary .times (.int 2) (.int 3))

theorem compile_written_sample : ({} : Config).looseVar = true ∧
    ∃ t built pos, compile {} "$\x7b a + 2 * 3 \x7d" = .ok t ∧ t.root = [.placeholder built pos] ∧
      built.unplaced = .binary .plus (.var 0 ⟨0, 0⟩) (.direct (.int 6) ⟨0, 0⟩) ⟨0, 0⟩ ∧
      t.params = [("a", 0)] ∧ t.frameSize = 1 := by
  have hsource : sampleFormula.source = "$\x7b a + 2 * 3 \x7d" := by decide
  have hparams : sampleFormula.params = ["a"] := by decide
  have hexpr : sampleFormula.expr (["a"].idxOf ·) =
      .binary .plus (.var 0 ⟨0, 0⟩) (.direct (.int 6) ⟨0, 0⟩) ⟨0, 0⟩ := by rfl
  have hcompile := compile_written {} rfl sampleFormula
  rw [hsource, hparams, hexpr] at hcompile
  exact ⟨rfl, hcompile⟩

end Template

end Stencil
