import Stencil.Proofs.Formula.RoundTrip
import Stencil.Proofs.Run.Follow
import Stencil.Proofs.Token.Quoted
import Stencil.Run.Render

namespace Stencil

open Stencil.Parser

namespace Token

-- A backslash is put before the quote and before itself.
def escapeWith (quote c : Char) : List Char := if c = '\\' ∨ c = quote then ['\\', c] else [c]

-- The literal that stands for a string, with either quote around it.
def quoted (quote : Char) (s : String) : String :=
  String.ofList (quote :: s.toList.flatMap (escapeWith quote) ++ [quote])

variable {quote : Char} (hquote : quote = '\'' ∨ quote = '"')

include hquote

theorem readItem_escapeWith (c : Char) : ReadItem quote (escapeWith quote c) c := by
  unfold escapeWith
  split
  · rename_i hspecial
    refine .item (.escape ?_)
    rcases hspecial with rfl | rfl
    · decide
    · rcases hquote with rfl | rfl
      · decide
      · decide
  · rename_i hplain
    rw [not_or] at hplain
    exact .item (.plain hplain.2 hplain.1)

theorem spelledBy_escapeWith (cs : List Char) :
    SpelledBy (ReadItem quote) (cs.flatMap (escapeWith quote)) cs := by
  induction cs with
  | nil => exact .nil
  | cons c cs ih => exact .cons (readItem_escapeWith hquote c) ih

-- Whatever is behind the literal, it is read up to its own end.
theorem scanString_quoted (s : String) (rest : List Char) (m : Mark) :
    scanString quote ⟨(quoted quote s).toList ++ rest, m⟩ =
      (.ok s, ⟨rest, m.past (quoted quote s).toList⟩) := by
  have hbackslash : quote ≠ '\\' := by
    rcases hquote with rfl | rfl
    · decide
    · decide
  have hread := @scanString_spelled quote m (quote :: rest) _ _
    (spelledBy_escapeWith hquote s.toList)
  rw [scanQuoted_close hbackslash, List.reverse_reverse, String.ofList_toList] at hread
  have hmark : (m.past (quote :: s.toList.flatMap (escapeWith quote))).after quote =
      m.past (quoted quote s).toList := by
    rw [quoted, String.toList_ofList, Mark.past_append]
    rfl
  rw [hmark] at hread
  simpa [quoted] using hread

end Token

open Token

namespace Lexer

section

variable {mode : Mode} (hmode : mode ≠ .text) (trim trimAfter : Bool) (m : Mark)

include hmode

-- Where nothing is to be skipped and no block ends, the next token begins at once.
theorem next_codeToken {c : Char} (r : List Char) (hblank : Text.isBlank c = false)
    (hslash : c ≠ '/') (hpercent : c ≠ '%') :
    next ⟨⟨c :: r, m⟩, mode, trim, trimAfter⟩ =
      codeToken ⟨⟨c :: r, m⟩, mode, trim, trimAfter⟩ c := by
  have hskip : skipTrivia .blank (c :: r) m = (.ok (), ⟨c :: r, m⟩) := by
    rw [skipTrivia, if_neg (by simp [hblank])]
    · rintro r' rfl
      exact absurd rfl hslash
    · rintro r' rfl
      exact absurd rfl hslash
  have hstep : codeStep ⟨⟨c :: r, m⟩, mode, trim, trimAfter⟩ =
      .done (codeToken ⟨⟨c :: r, m⟩, mode, trim, trimAfter⟩ c).1
        (codeToken ⟨⟨c :: r, m⟩, mode, trim, trimAfter⟩ c).2 := by
    simp only [codeStep, hskip]
    split
    · rename_i hblock
      exact absurd (List.cons.inj hblock).1 hpercent
    · rename_i hnone
      cases hnone
    · rename_i hsome
      cases hsome
      rfl
  cases mode with
  | text => exact absurd rfl hmode
  | code => exact next_of_done hstep
  | placeholder depth => exact next_of_done hstep

theorem next_quoted {quote : Char} (hquote : quote = '\'' ∨ quote = '"') (s : String)
    (rest : List Char) :
    next ⟨⟨(quoted quote s).toList ++ rest, m⟩, mode, trim, trimAfter⟩ =
      (.ok ⟨.string, .literal (.str s), m.pos⟩,
        ⟨⟨rest, m.past (quoted quote s).toList⟩, mode, trim, trimAfter⟩) := by
  have hread := scanString_quoted hquote s rest m
  have hchars : (quoted quote s).toList ++ rest =
      quote :: (s.toList.flatMap (escapeWith quote) ++ quote :: rest) := by
    simp [quoted]
  rw [hchars] at hread ⊢
  have hplain : Text.isBlank quote = false ∧ quote ≠ '/' ∧ quote ≠ '%' ∧ quote.isDigit = false := by
    rcases hquote with rfl | rfl
    · decide
    · decide
  obtain ⟨hblank, hslash, hpercent, hdigit⟩ := hplain
  rw [next_codeToken hmode trim trimAfter m _ hblank hslash hpercent]
  simp only [codeToken, hdigit, hquote, hread, if_true, if_false, Bool.false_eq_true]
  rfl

end

-- The name of a function at the start of a source, and the parenthesis behind it. Whether the rest
-- of the line is dropped after the block depends on what follows.
theorem next_callee (trim : Bool) (rest : List Char) :
    ∃ trimAfter, next ⟨⟨'<' :: '%' :: ' ' :: 'f' :: '(' :: rest, .start⟩, .text, trim, false⟩ =
      (.ok ⟨.identifier, .identifier "f", ⟨1, 4⟩⟩,
        ⟨⟨'(' :: rest, ⟨⟨1, 5⟩, false⟩⟩, .code, trim, trimAfter⟩) := by
  let cs := ' ' :: 'f' :: '(' :: rest
  let alone := trim && aloneOnLine ⟨'<' :: '%' :: cs, .start⟩
  have htext : step ⟨⟨'<' :: '%' :: cs, .start⟩, .text, trim, false⟩ =
      .more ⟨⟨cs, Mark.start.past ['<', '%']⟩, .code, trim, alone⟩ := by
    simp [step, textStep, scanText, Cursor.skip, alone]
  have hcode : step ⟨⟨cs, Mark.start.past ['<', '%']⟩, .code, trim, alone⟩ =
      .done (.ok ⟨.identifier, .identifier "f", ⟨1, 4⟩⟩)
        ⟨⟨'(' :: rest, ⟨⟨1, 5⟩, false⟩⟩, .code, trim, alone⟩ := rfl
  refine ⟨alone, ?_⟩
  exact (next_of_more htext).trans (next_of_done hcode)

section

variable (trim trimAfter : Bool) (m : Mark) (rest : List Char)

theorem next_leftParen :
    next ⟨⟨'(' :: rest, m⟩, .code, trim, trimAfter⟩ =
      (.ok ⟨.leftParen, .none, m.pos⟩, ⟨⟨rest, m.after '('⟩, .code, trim, trimAfter⟩) := by
  rw [next_codeToken (by decide) _ _ _ _ (by decide) (by decide) (by decide)]
  rfl

theorem next_rightParen :
    next ⟨⟨')' :: rest, m⟩, .code, trim, trimAfter⟩ =
      (.ok ⟨.rightParen, .none, m.pos⟩, ⟨⟨rest, m.after ')'⟩, .code, trim, trimAfter⟩) := by
  rw [next_codeToken (by decide) _ _ _ _ (by decide) (by decide) (by decide)]
  rfl

theorem next_semicolon :
    next ⟨⟨';' :: rest, m⟩, .code, trim, trimAfter⟩ =
      (.ok ⟨.semicolon, .none, m.pos⟩, ⟨⟨rest, m.after ';'⟩, .code, trim, trimAfter⟩) := by
  rw [next_codeToken (by decide) _ _ _ _ (by decide) (by decide) (by decide)]
  rfl

-- The brace behind a placeholder, with nothing before it.
theorem next_brace :
    next ⟨⟨'\x7d' :: rest, m⟩, .placeholder 0, trim, trimAfter⟩ =
      (.ok ⟨.rightBrace, .none, m.pos⟩, ⟨⟨rest, m.after '\x7d'⟩, .text, trim, trimAfter⟩) := by
  rw [next_codeToken (by decide) _ _ _ _ (by decide) (by decide) (by decide)]
  rfl

theorem next_blockEnd :
    next ⟨⟨[' ', '%', '>'], m⟩, .code, trim, trimAfter⟩ =
      (.ok ⟨.endOfInput, .none, (m.past [' ', '%', '>']).pos⟩,
        ⟨⟨[], m.past [' ', '%', '>']⟩, .text, trim, false⟩) := by
  cases trimAfter <;> rfl

end

end Lexer

namespace Template

variable {options : BuildOptions} {quote : Char}

theorem Makes.string {s : String} {input : Input Sem} (hsymbol : input.symbol = Terminal.string.id)
    (hvalue : input.value = .literal (.str s)) (d : Draft) :
    Makes options (.n .expression) [input] (.expr (.direct (.str s) input.pos)) input.pos d d := by
  have hprimary : Makes options (.n Precedence.primary.nonterminal) [input]
      (.expr (.direct (.str s) input.pos)) input.pos d d := by
    refine Makes.production .string (by decide) (Makes.token hsymbol d).single ?_
    intro handle hhandle
    unfold Build.action
    simp [Build.takeLiteral, Build.takeAs, Build.literal, hhandle, hvalue]
  exact hprimary.expression

-- A name of the template itself that nobody declared becomes its first parameter.
theorem Makes.firstParameter {name : String} {input : Input Sem}
    (hsymbol : input.symbol = Terminal.identifier.id) (hvalue : input.value = .identifier name)
    (hoptions : options.looseVar = true) :
    Makes options (.n Precedence.suffixed.nonterminal) [input] (.expr (.var 0 input.pos)) input.pos
      .empty (.ofNames [name]) := by
  refine Makes.lift (q := .primary) (by decide) ?_
  refine Makes.production .readVariable (by decide) (Makes.token hsymbol _).single ?_
  intro handle hhandle
  have hresolve : Build.resolve options name input.pos .empty = .ok (0, .ofNames [name]) := by
    rw [Build.resolve, hoptions]
    rfl
  unfold Build.action
  simp [Build.takeIdent, Build.takeAs, hhandle, hvalue, hresolve]

theorem Makes.callStatement {callee args : List (Input Sem)} {e : Expr} {es : List Expr}
    {pos pos' : Position} {d middle d' : Draft}
    (hcallee : Makes options (.n .postfixExpr) callee (.expr e) pos d middle)
    (hargs : Makes options (.n .arguments) args (.exprs es) pos' middle d')
    {opening closing semicolon : Input Sem} (hopening : opening.symbol = Terminal.leftParen.id)
    (hclosing : closing.symbol = Terminal.rightParen.id)
    (hsemicolon : semicolon.symbol = Terminal.semicolon.id) :
    Makes options (.n .statement) (callee ++ opening :: (args ++ [closing]) ++ [semicolon])
      (.stmt (.expr (.call e es opening.pos))) pos d d' := by
  have hcall : Makes options (.n Precedence.suffixed.nonterminal)
      (callee ++ opening :: (args ++ [closing])) (.expr (.call e es opening.pos)) pos d d' := by
    have hparts := EvaluatesAll.cons hcallee (EvaluatesAll.cons (Makes.token hopening _)
      (EvaluatesAll.cons hargs (Makes.token hclosing _).single))
    refine Makes.production .call (by decide) hparts ?_
    intro handle hhandle
    unfold Build.action
    simp [Build.takeExpr, Build.takeExprs, Build.takeAs, hhandle]
  have hparts := EvaluatesAll.cons hcall.expression (Makes.token hsemicolon _).single
  refine Makes.production .expressionStatement (by decide) hparts ?_
  intro handle hhandle
  unfold Build.action
  simp [Build.takeExpr, Build.takeAs, hhandle]

theorem Makes.oneArgument {tokens : List (Input Sem)} {e : Expr} {pos : Position} {d d' : Draft}
    (h : Makes options (.n .expression) tokens (.expr e) pos d d') :
    Makes options (.n .arguments) tokens (.exprs [e]) pos d d' := by
  refine Makes.production .firstArgument (by decide) h.single ?_
  intro handle hhandle
  unfold Build.action
  simp [Build.takeExpr, Build.takeAs, hhandle]

section

variable (hquote : quote = '\'' ∨ quote = '"') (s : String) (config : Config)

include hquote

-- A placeholder with the literal in it and nothing else.
theorem compile_quoted_placeholder :
    ∃ t, compile config ("$\x7b" ++ quoted quote s ++ "\x7d") = .ok t ∧
      t.root = [.placeholder (.direct (.str s) ⟨1, 3⟩) ⟨1, 1⟩] := by
  let options : BuildOptions := ⟨config.looseVar, true⟩
  let opened := (Mark.start.after '$').after '\x7b'
  let behind := opened.past (quoted quote s).toList
  let opening := input ⟨.placeholder, .none, ⟨1, 1⟩⟩
  let closing := input ⟨.rightBrace, .none, behind.pos⟩
  have hstart : Lexer.start ("$\x7b" ++ quoted quote s ++ "\x7d") config.trim =
      ⟨⟨'$' :: '\x7b' :: ((quoted quote s).toList ++ ['\x7d']), .start⟩, .text, config.trim,
        false⟩ := by
    simp [Lexer.start]
  have hopening := next_of_token options
    (Lexer.next_opening config.trim ((quoted quote s).toList ++ ['\x7d']))
  rw [← hstart] at hopening
  have hinside : Mode.placeholder 0 ≠ .text := by decide
  have hstring := next_of_token options
    (Lexer.next_quoted hinside config.trim false opened hquote s ['\x7d'])
  have hclosing := next_of_token options (Lexer.next_brace config.trim false behind [])
  have hend := next_of_token options (Lexer.next_end config.trim false (behind.after '\x7d'))
  have hahead : Ahead (environment options) opening _ _ :=
    .more hstring (.more hclosing (.more hend (.more hend (.last _ _))))
  have hliteral : Makes options (.n .expression) _ _ _ .empty .empty :=
    @Makes.string options s (input ⟨.string, .literal (.str s), opened.pos⟩) rfl rfl _
  have hmark : opening.symbol = Terminal.placeholder.id := rfl
  have hbrace : closing.symbol = Terminal.rightBrace.id := rfl
  have hstatement := hliteral.placeholder hmark hbrace
  exact ⟨_, compile_of_makes rfl hstatement.oneStatement hopening hahead rfl rfl, rfl⟩

-- A call of a parameter with the literal as its argument.
theorem compile_quoted_argument (hloose : config.looseVar = true) :
    ∃ t, compile config ("<% f(" ++ quoted quote s ++ "); %>") = .ok t ∧
      t.root = [.expr (.call (.var 0 ⟨1, 4⟩) [.direct (.str s) ⟨1, 6⟩] ⟨1, 5⟩)] ∧
      t.params = [("f", 0)] ∧ t.frameSize = 1 := by
  let options : BuildOptions := ⟨config.looseVar, true⟩
  let opened : Mark := ⟨⟨1, 6⟩, false⟩
  let behind := opened.past (quoted quote s).toList
  let called := behind.after ')'
  let finished := called.after ';'
  let callee := input ⟨.identifier, .identifier "f", ⟨1, 4⟩⟩
  let opening := input ⟨.leftParen, .none, ⟨1, 5⟩⟩
  let closing := input ⟨.rightParen, .none, behind.pos⟩
  let semicolon := input ⟨.semicolon, .none, called.pos⟩
  let argument := (quoted quote s).toList ++ [')', ';', ' ', '%', '>']
  have hstart : Lexer.start ("<% f(" ++ quoted quote s ++ "); %>") config.trim =
      ⟨⟨'<' :: '%' :: ' ' :: 'f' :: '(' :: argument, .start⟩, .text, config.trim, false⟩ := by
    simp [Lexer.start, argument]
  obtain ⟨trimAfter, hcallee⟩ := Lexer.next_callee config.trim argument
  rw [← hstart] at hcallee
  have hcallee := next_of_token options hcallee
  have hopening := next_of_token options
    (Lexer.next_leftParen config.trim trimAfter ⟨⟨1, 5⟩, false⟩ argument)
  have hcode : Mode.code ≠ .text := by decide
  have hstring := next_of_token options (Lexer.next_quoted hcode config.trim trimAfter opened hquote
    s [')', ';', ' ', '%', '>'])
  have hclosing := next_of_token options
    (Lexer.next_rightParen config.trim trimAfter behind [';', ' ', '%', '>'])
  have hsemicolon := next_of_token options
    (Lexer.next_semicolon config.trim trimAfter called [' ', '%', '>'])
  have hend := next_of_token options (Lexer.next_blockEnd config.trim trimAfter finished)
  have hagain := next_of_token options
    (Lexer.next_end config.trim false (finished.past [' ', '%', '>']))
  have hahead : Ahead (environment options) callee _ _ :=
    .more hopening (.more hstring (.more hclosing (.more hsemicolon
      (.more hend (.more hagain (.last _ _))))))
  have hname := @Makes.firstParameter options "f" callee rfl rfl hloose
  have hliteral : Makes options (.n .expression) _ _ _ (.ofNames ["f"]) (.ofNames ["f"]) :=
    @Makes.string options s (input ⟨.string, .literal (.str s), opened.pos⟩) rfl rfl _
  have hleft : opening.symbol = Terminal.leftParen.id := rfl
  have hright : closing.symbol = Terminal.rightParen.id := rfl
  have hlast : semicolon.symbol = Terminal.semicolon.id := rfl
  have hstatement := Makes.callStatement hname hliteral.oneArgument hleft hright hlast
  exact ⟨_, compile_of_makes rfl hstatement.oneStatement hcallee hahead rfl rfl, rfl, rfl, rfl⟩

end

-- A statement that is an expression does what the expression does.
theorem runBody_expr {k : Linkage} {fuel : Nat} {e : Expr} {frame : Frame} {world : World}
    {result : Except (Halt RuntimeError) Value} {a : Activation}
    (h : Run.evalExpr k e ⟨frame, world⟩ = (result, a)) :
    Run.runBody k fuel [.expr e] frame world = (result.map fun _ => .normal, a.world) := by
  have hblock : Run.execBlock k fuel [.expr e] ⟨frame, world⟩ =
      (result.map fun _ => .normal, a) := by
    rw [Run.execBlock, Run.execStmt]
    cases result with
    | error halt => exact run_bind_error (run_bind_error h)
    | ok v =>
        have hfirst : (do let _ ← Run.evalExpr k e; return .normal : RunM Flow) ⟨frame, world⟩ =
            (.ok .normal, a) := run_bind_ok h
        rw [run_bind_ok hfirst, Run.execBlock]
        rfl
  rw [Run.runBody, hblock]

-- All that running such a template does is one call.
theorem render_argument {t : Template} {s : String} {params : Params} {callee : Value}
    (hroot : t.root = [.expr (.call (.var 0 ⟨1, 4⟩) [.direct (.str s) ⟨1, 6⟩] ⟨1, 5⟩)])
    (hparams : t.params = [("f", 0)]) (hsize : t.frameSize = 1)
    (hcallee : params.get? "f" = some callee) (natives : Run.Natives) (fuel origin : Nat)
    (world : World) :
    t.render natives fuel origin params world =
      (do let _ ← (Run.linkage natives fuel).call callee [.str s] ⟨1, 5⟩) world := by
  have hslots : t.initialSlots params = #[callee] := by
    rw [initialSlots, hparams, hsize]
    simp [hcallee]
  let k := Run.linkage natives fuel
  let frame : Frame := ⟨#[callee], 0, origin⟩
  have hname : Run.evalExpr k (.var 0 ⟨1, 4⟩) ⟨frame, world⟩ = (.ok callee, ⟨frame, world⟩) := by
    rw [Run.evalExpr]
    rfl
  have hargs : Run.evalExprs k [.direct (.str s) ⟨1, 6⟩] ⟨frame, world⟩ =
      (.ok [.str s], ⟨frame, world⟩) := by
    rw [Run.evalExprs]
    rfl
  unfold render
  rw [hroot, hslots]
  cases hcall : k.call callee [.str s] ⟨1, 5⟩ world with
  | mk result after =>
      have heval : Run.evalExpr k (.call (.var 0 ⟨1, 4⟩) [.direct (.str s) ⟨1, 6⟩] ⟨1, 5⟩)
          ⟨frame, world⟩ = (result, ⟨frame, after⟩) := by
        rw [Run.evalExpr, run_bind_ok hname, run_bind_ok hargs, RunM.onWorld, hcall]
      have hbody := @runBody_expr k fuel _ _ _ _ _ heval
      cases result with
      | error halt => rw [run_bind_error hbody, run_bind_error hcall]
      | ok v => rw [run_bind_ok hbody, run_bind_ok hcall]

-- Every string can be written as a literal, between quotes of either kind. A placeholder with the
-- literal shows exactly the string, and a function that is called with it is given the string:
-- whatever function it is, and so one of the host.
theorem quoted_string (quote : Char) (hquote : quote = '\'' ∨ quote = '"') (s : String)
    (config : Config) :
    (∃ t, compile config ("$\x7b" ++ quoted quote s ++ "\x7d") = .ok t ∧
      ∀ natives fuel origin params store resolvers before,
        t.render natives fuel origin params ⟨store, resolvers, .text before⟩ =
          (.ok (), ⟨store, resolvers, .text (before ++ s)⟩)) ∧
      (config.looseVar = true →
        ∃ t, compile config ("<% f(" ++ quoted quote s ++ "); %>") = .ok t ∧
          (∀ natives fuel origin params callee world, params.get? "f" = some callee →
            t.render natives fuel origin params world =
              (do let _ ← (Run.linkage natives fuel).call callee [.str s] ⟨1, 5⟩) world) ∧
          ∀ natives fuel origin params ref name native world,
            params.get? "f" = some (.native ref name) → natives[ref]? = some native →
            t.render natives (fuel + 1) origin params world =
              (do
                let _ ← (native.run (Run.nextAt natives fuel) [.str s]).mapError
                  (Fault.located ⟨1, 5⟩)) world) := by
  constructor
  · obtain ⟨t, hcompile, hroot⟩ := compile_quoted_placeholder hquote s config
    refine ⟨t, hcompile, ?_⟩
    intro natives fuel origin params store resolvers before
    unfold render
    rw [hroot]
    rfl
  · intro hloose
    obtain ⟨t, hcompile, hroot, hparams, hsize⟩ := compile_quoted_argument hquote s config hloose
    refine ⟨t, hcompile, ?_, ?_⟩
    · intro natives fuel origin params callee world hcallee
      exact render_argument hroot hparams hsize hcallee natives fuel origin world
    · intro natives fuel origin params ref name native world hcallee hnative
      rw [render_argument hroot hparams hsize hcallee]
      have hcall : (Run.linkage natives (fuel + 1)).call (.native ref name) [.str s] ⟨1, 5⟩ =
          (native.run (Run.nextAt natives fuel) [.str s]).mapError (Fault.located ⟨1, 5⟩) := by
        simp only [Run.linkage, Run.callAt, Run.invoke, Run.callNative, hnative]
      rw [hcall]

-- A function of the host that writes the string it is given.
def tell : Native where
  name := "tell"
  run _ args :=
    match args with
    | [.str s] => do
      Run.writeText s
      return .null
    | _ => return .null

theorem quoted_string_told :
    ('\'' = '\'' ∨ '\'' = '"') ∧ ({} : Config).looseVar = true ∧
      (∃ t, compile {} "$\x7b'\x7d%>\\'\"\\\\\n'\x7d" = .ok t ∧
        ∀ store resolvers, t.render #[] 1 0 .empty ⟨store, resolvers, .text ""⟩ =
          (.ok (), ⟨store, resolvers, .text "\x7d%>'\"\\\n"⟩)) ∧
      ∃ t, compile {} "<% f('\x7d%>\\'\"\\\\\n'); %>" = .ok t ∧
        ∀ store resolvers,
          t.render #[tell] 1 0 (.ofList [("f", .native 0 "tell")]) ⟨store, resolvers, .text ""⟩ =
            (.ok (), ⟨store, resolvers, .text "\x7d%>'\"\\\n"⟩) := by
  obtain ⟨⟨t, hcompile, hshown⟩, hcalled⟩ :=
    quoted_string '\'' (.inl rfl) "\x7d%>'\"\\\n" {}
  obtain ⟨t', hcompile', -, htold⟩ := hcalled rfl
  refine ⟨.inl rfl, rfl, ⟨t, hcompile, ?_⟩, t', hcompile', ?_⟩
  · intro store resolvers
    exact hshown #[] 1 0 .empty store resolvers ""
  · intro store resolvers
    exact htold #[tell] 0 0 (.ofList [("f", .native 0 "tell")]) 0 "tell" tell _ rfl rfl

end Template

end Stencil
