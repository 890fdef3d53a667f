import Stencil.Proofs.Language.States
import Stencil.Proofs.Parser.Replay
import Stencil.Proofs.Template.CompileSafe

namespace Stencil

open Stencil.Parser

theorem templateGrammar_rule (p : Production) : templateGrammar.rules[p.id]? = some p.rule := by
  simp [templateGrammar, Production.getElem?_all_id]

theorem templateGrammar_conflictFree : templateGrammar.ConflictFree :=
  Grammar.conflictFree_of_compile templateGrammar_compiles

-- What the steps of an action come to.
namespace Build

variable (d d' : Draft)

@[simp] theorem run_pure (a : α) : (pure a : BuildM α) d = .ok (a, d) := rfl

@[simp] theorem run_get : (get : BuildM Draft) d = .ok (d, d) := rfl

@[simp] theorem run_set : (set d' : BuildM PUnit) d = .ok (⟨⟩, d') := rfl

@[simp] theorem run_bind (m : BuildM α) (f : α → BuildM β) :
    (m >>= f) d = (m d).bind fun r => f r.1 r.2 := rfl

@[simp] theorem run_map (f : α → β) (m : BuildM α) :
    (f <$> m) d = (m d).bind fun r => .ok (f r.1, r.2) := rfl

@[simp] theorem ok_bind (a : α) (f : α → Except ParseError β) :
    (Except.ok a : Except ParseError α).bind f = f a := rfl

theorem takeAs_congr {h h' : Handle} (hparts : h.parts = h'.parts) (expected : String)
    (select : Sem → Option α) : takeAs expected select h = takeAs expected select h' := by
  funext i
  simp only [takeAs, mismatch, Handle.value?_eq, Handle.posAt_eq, hparts]

-- An action looks at the parts of a handle only.
theorem action_congr (options : BuildOptions) (p : Production) {h h' : Handle}
    (hparts : h.parts = h'.parts) : action options p h = action options p h' := by
  cases p <;>
    simp only [action, binary, unary, logical, ifStatement, literal, forHead, innermostTarget,
      labelledTarget, loopStatus, passOn, mismatch, takeExpr, takeExprs, takeIdent, takeLiteral,
      takeText, takeStmt, takeStmts, takeParams, takeForHead, takeForLoop, takeFunctionHead,
      takeAs_congr hparts, Handle.value?_eq, Handle.posAt_eq, hparts]

end Build

namespace Template

variable {options : BuildOptions} {d middle d' : Draft}

theorem environment_serves (options : BuildOptions) :
    (environment options).tables.Serves templateGrammar := by
  rw [environment_tables]
  exact Grammar.serves_of_compile templateGrammar_compiles

-- What the builder makes of a symbol over these tokens, and what it knows before and behind them.
abbrev Makes (options : BuildOptions) (s : LanguageSymbol) (tokens : List (Input Sem))
    (v : Sem) (pos : Position) (d d' : Draft) : Prop :=
  Evaluates templateGrammar (environment options) s.symbol tokens (v, pos) d d'

abbrev MakesAll (options : BuildOptions) (symbols : List LanguageSymbol) (tokens : List (Input Sem))
    (parts : List (Sem × Position)) (d d' : Draft) : Prop :=
  EvaluatesAll templateGrammar (environment options) (symbols.map LanguageSymbol.symbol) tokens
    parts d d'

-- What an action makes of these parts, whatever else is known of the handle.
def Acts (options : BuildOptions) (p : Production) (parts : List (Sem × Position)) (d : Draft)
    (v : Sem) (d' : Draft) : Prop :=
  ∀ handle : Build.Handle, handle.parts = parts → Build.action options p handle d = .ok (v, d')

theorem Makes.token {t : Terminal} {input : Input Sem} (h : input.symbol = t.id) (d : Draft) :
    Makes options (.t t) [input] input.value input.pos d d := by
  have hsymbol : (LanguageSymbol.t t).symbol = .terminal input.symbol := by rw [h]; rfl
  rw [Makes, hsymbol]
  exact .token input d

theorem Makes.single {s : LanguageSymbol} {tokens : List (Input Sem)} {v : Sem} {pos : Position}
    (h : Makes options s tokens v pos d d') : MakesAll options [s] tokens [(v, pos)] d d' := by
  have hparts := EvaluatesAll.cons h (.nil d')
  rwa [List.append_nil] at hparts

theorem Makes.production (p : Production) (hp : p ≠ .start) {tokens : List (Input Sem)}
    {parts : List (Sem × Position)} {v : Sem}
    (hparts : MakesAll options p.sides.2 tokens parts d middle)
    (haction : Acts options p parts middle v d') :
    Makes options (.n p.sides.1) tokens v (placeOf parts) d d' := by
  refine .node (templateGrammar_rule p) hparts fun handle hhandle => ?_
  have hreduce := @reduce_eq options _ _ (Production.getElem?_all_id p) handle middle
  rw [haction handle hhandle, decide_eq_false hp] at hreduce
  exact hreduce

theorem Makes.noStatements (d : Draft) :
    Makes options (.n .statements) [] (.stmts []) ⟨0, 0⟩ d d := by
  refine Makes.production .noStatements (by decide) (.nil d) ?_
  intro handle hhandle
  rfl

-- One statement is a list of them.
theorem Makes.oneStatement {tokens : List (Input Sem)} {s : Stmt} {pos : Position}
    (h : Makes options (.n .statement) tokens (.stmt s) pos d d') :
    Makes options (.n .statements) tokens (.stmts [s]) ⟨0, 0⟩ d d' := by
  have hparts := EvaluatesAll.cons (Makes.noStatements d) h.single
  refine Makes.production .moreStatements (by decide) hparts ?_
  intro handle hhandle
  unfold Build.action
  simp [Build.takeStmts, Build.takeAs, hhandle]

-- A token as the parser takes it.
def input (t : Token) : Input Sem := ⟨t.terminal.id, .ofLexeme t.lexeme, t.pos⟩

theorem next_of_token (options : BuildOptions) {l l' : Lexer} {t : Token}
    (h : l.next = (.ok t, l')) :
    (environment options).next l = (.ok (input t), l') := by
  change nextInput l = _
  rw [nextInput, h]
  rfl

-- A source whose tokens are made into statements is compiled into them.
theorem compile_of_makes {config : Config} (hoptions : ⟨config.looseVar, true⟩ = options)
    {source : String} {tokens : List (Input Sem)} {ss : List Stmt} {pos : Position}
    (h : Makes options (.n .statements) tokens (.stmts ss) pos .empty d)
    {first last after : Input Sem} {l : Lexer}
    (hfirst : (environment options).next (.start source config.trim) = (.ok first, l))
    (hahead : Ahead (environment options) first l (tokens ++ [last, after]))
    (hlast : last.symbol = Terminal.endOfInput.id)
    (hafter : after.symbol = Terminal.endOfInput.id) :
    compile config source =
      .ok ⟨source, ss, d.scopes.frame.nextSlot, d.params.reverse, none⟩ := by
  have htemplate : Makes options (.n .template) tokens (.stmts ss) pos .empty d := by
    refine Makes.production .template (by decide) h.single ?_
    intro handle hhandle
    unfold Build.action
    simp [Build.passOn, hhandle]
  have hparts : MakesAll options Production.start.sides.2 (tokens ++ [last])
      [(.stmts ss, pos), (last.value, last.pos)] .empty d :=
    .cons htemplate (.cons (Makes.token hlast d) (.nil d))
  have hreduce : ∀ handle : Build.Handle,
      handle.parts = [(.stmts ss, pos), (last.value, last.pos)] →
      (environment options).reduce 0 handle d = (.ok ⟨.stmts ss, true⟩, d) := by
    intro handle hhandle
    have hreduce := @reduce_eq options _ _ (Production.getElem?_all_id .start) handle d
    have haction : Build.action options .start handle d = .ok (.stmts ss, d) := by
      unfold Build.action
      simp [Build.takeStmts, Build.takeAs, hhandle]
    rw [haction] at hreduce
    exact hreduce
  obtain ⟨fuel, source', hparse⟩ := hparts.parse (environment_serves _)
    templateGrammar_conflictFree (templateGrammar_rule .start) hreduce hfirst
    (by simpa using hahead) hafter
  rw [← hoptions] at hparse
  rw [compile_eq_of_parse hparse]
  rfl

-- A phrase as it is put together: tokens, and productions over the phrases of their right sides.
inductive Phrase where
  | token (t : Token)
  | node (p : Production) (parts : List Phrase)

-- A phrase that is made: its symbol, its meaning and where it stands.
structure Made where
  symbol : LanguageSymbol
  value : Sem
  pos : Position

def Made.part (made : Made) : Sem × Position := (made.value, made.pos)

-- The parts as the parser has them on its stack. Actions see neither symbols nor states.
def handleOf (parts : List Made) : Build.Handle :=
  ⟨parts.map fun made => ⟨0, made.value, 0, made.pos⟩⟩

theorem parts_handleOf (parts : List Made) : (handleOf parts).parts = parts.map Made.part := by
  simp [handleOf, Handle.parts, Made.part]

namespace Phrase

mutual

def tokens : Phrase → List Token
  | token t => [t]
  | node _ parts => tokensAll parts

def tokensAll : List Phrase → List Token
  | [] => []
  | first :: rest => first.tokens ++ tokensAll rest

end

mutual

-- What the builder makes of a phrase, if its productions fit.
def make (options : BuildOptions) : Phrase → Draft → Option (Made × Draft)
  | token t, d => some (⟨.t t.terminal, .ofLexeme t.lexeme, t.pos⟩, d)
  | node p parts, d => do
    let (parts, d) ← makeAll options parts d
    if p ≠ .start ∧ parts.map Made.symbol = p.sides.2 then
      match Build.action options p (handleOf parts) d with
      | .ok (value, d) => some (⟨.n p.sides.1, value, placeOf (parts.map Made.part)⟩, d)
      | .error _ => none
    else none

def makeAll (options : BuildOptions) : List Phrase → Draft → Option (List Made × Draft)
  | [], d => some ([], d)
  | first :: rest, d => do
    let (made, d) ← make options first d
    let (others, d) ← makeAll options rest d
    some (made :: others, d)

end

variable {options : BuildOptions}

mutual

theorem makes_of_make {phrase : Phrase} {d d' : Draft} {made : Made}
    (h : phrase.make options d = some (made, d')) :
    Makes options made.symbol (phrase.tokens.map input) made.value made.pos d d' := by
  cases phrase with
  | token t =>
      cases h
      exact Makes.token rfl d
  | node p parts =>
      rw [make] at h
      obtain ⟨⟨made', middle⟩, hparts, h⟩ := Option.bind_eq_some_iff.mp h
      simp only at h
      split_ifs at h with hfits
      split at h
      · rename_i value d₂ haction
        cases h
        have hall := makesAll_of_makeAll hparts
        rw [hfits.2] at hall
        refine Makes.production p hfits.1 hall fun handle hhandle => ?_
        rw [← haction]
        exact congrFun (Build.action_congr options p (hhandle.trans (parts_handleOf made').symm)) _
      · cases h

theorem makesAll_of_makeAll {phrases : List Phrase} {d d' : Draft} {made : List Made}
    (h : makeAll options phrases d = some (made, d')) :
    MakesAll options (made.map Made.symbol) ((tokensAll phrases).map input)
      (made.map Made.part) d d' := by
  cases phrases with
  | nil =>
      cases h
      exact .nil d
  | cons first rest =>
      rw [makeAll] at h
      obtain ⟨⟨made₁, middle⟩, hfirst, h⟩ := Option.bind_eq_some_iff.mp h
      obtain ⟨⟨others, last⟩, hrest, h⟩ := Option.bind_eq_some_iff.mp h
      cases h
      rw [tokensAll, List.map_append]
      exact .cons (makes_of_make hfirst) (makesAll_of_makeAll hrest)

end

end Phrase

-- The tokens that a lexer gives out in so many calls.
def tokensFrom : Nat → Lexer → Option (List Token)
  | 0, _ => some []
  | n + 1, l =>
    match l.next with
    | (.ok t, l') => (tokensFrom n l').map (t :: ·)
    | (.error _, _) => none

theorem exists_next_of_tokensFrom {n : Nat} {t : Token} {ts : List Token} {l : Lexer}
    (h : tokensFrom n l = some (t :: ts)) :
    ∃ m l', l.next = (.ok t, l') ∧ tokensFrom m l' = some ts := by
  cases n with
  | zero => cases h
  | succ n =>
      rw [tokensFrom] at h
      split at h
      · rename_i l' hnext
        obtain ⟨_, hrest, heq⟩ := Option.map_eq_some_iff.mp h
        cases heq
        exact ⟨n, l', hnext, hrest⟩
      · cases h

theorem ahead_of_tokensFrom (options : BuildOptions) {n : Nat} {t : Token} {ts : List Token}
    {l : Lexer} (h : tokensFrom n l = some ts) :
    Ahead (environment options) (input t) l ((t :: ts).map input) := by
  induction ts generalizing n t l with
  | nil => exact .last _ _
  | cons t' ts ih =>
      obtain ⟨m, l', hnext, hrest⟩ := exists_next_of_tokensFrom h
      exact .more (next_of_token options hnext) (ih hrest)

-- A source whose tokens are those of a phrase, and the end of input twice, is compiled into what
-- is made of the phrase.
theorem compile_of_phrase (config : Config) {source : String} {phrase : Phrase} {ss : List Stmt}
    {pos place : Position} {d : Draft} {n : Nat}
    (hmake : phrase.make ⟨config.looseVar, true⟩ .empty =
      some (⟨.n .statements, .stmts ss, pos⟩, d))
    (htokens : tokensFrom n (.start source config.trim) = some
      (phrase.tokens ++ [⟨.endOfInput, .none, place⟩, ⟨.endOfInput, .none, place⟩])) :
    compile config source =
      .ok ⟨source, ss, d.scopes.frame.nextSlot, d.params.reverse, none⟩ := by
  let last : Token := ⟨.endOfInput, .none, place⟩
  cases hall : phrase.tokens ++ [last, last] with
  | nil => simp at hall
  | cons first rest =>
      rw [hall] at htokens
      obtain ⟨m, l, hnext, hrest⟩ := exists_next_of_tokensFrom htokens
      have hahead := ahead_of_tokensFrom (t := first) ⟨config.looseVar, true⟩ hrest
      rw [← hall, List.map_append] at hahead
      exact compile_of_makes rfl (Phrase.makes_of_make hmake) (next_of_token _ hnext) hahead rfl rfl

-- The productions that pass an expression on, from the loosest to the tightest.
def passing : List Production :=
  [.expression, .orOperand, .andOperand, .bitOrOperand, .bitXorOperand, .bitAndOperand,
    .equalityOperand, .relationOperand, .shiftOperand, .rangeOperand, .additiveOperand,
    .productOperand, .unaryOperand, .postfixOperand]

namespace Phrase

def through (ps : List Production) (phrase : Phrase) : Phrase :=
  ps.foldr (fun p inner => node p [inner]) phrase

def sign (terminal : Terminal) (line column : Nat) : Phrase :=
  token ⟨terminal, .none, ⟨line, column⟩⟩

def word (name : String) (line column : Nat) : Phrase :=
  token ⟨.identifier, .identifier name, ⟨line, column⟩⟩

end Phrase

end Template

end Stencil
