import Stencil.Proofs.Named.Effect
import Stencil.Proofs.Named.Parse
import Stencil.Proofs.Parser.Readings
import Stencil.Proofs.Template.CompileSafe

namespace Stencil.Named

open Stencil.Parser

-- What a grammar symbol stands for in a tree.
inductive Role where
  | mark | identifier | literal | text | expr | exprs | statement | closed | statements | blockOpen
  | block | params | forHead | forLoop | functionHead

def Role.ofTerminal : Terminal → Role
  | .identifier => .identifier
  | .integer | .float | .string => .literal
  | .text => .text
  | _ => .mark

def Role.ofNonterminal : Nonterminal → Role
  | .start | .template | .statements => .statements
  | .statement => .statement
  | .ifStatement | .forStatement => .closed
  | .blockOpen => .blockOpen
  | .block => .block
  | .forHead => .forHead
  | .forLoop => .forLoop
  | .arguments => .exprs
  | .functionHead => .functionHead
  | .parameters => .params
  | .expression | .orExpr | .andExpr | .bitOrExpr | .bitXorExpr | .bitAndExpr | .equalityExpr
  | .relationExpr | .shiftExpr | .rangeExpr | .additiveExpr | .productExpr | .unaryExpr
  | .postfixExpr | .primary | .functionExpr => .expr

def Role.ofSymbol : LanguageSymbol → Role
  | .t terminal => ofTerminal terminal
  | .n nonterminal => ofNonterminal nonterminal

-- A value that has the role was built on the way from one draft to the other.
def Reads (looseVar : Bool) : Role → Sem Nat → Draft → Draft → Prop
  | .mark, x, d, d' => x = .none ∧ d = d'
  | .identifier, x, d, d' => ∃ name, x = .identifier name ∧ d = d'
  | .literal, x, d, d' => ∃ value, x = .literal value ∧ d = d'
  | .text, x, d, d' => ∃ s, x = .text s ∧ d = d'
  | .params, x, d, d' => ∃ names, x = .params names ∧ d = d'
  | .expr, x, d, d' => ∃ e, x = .expr e ∧ Effect looseVar d d' [] id fun T Γ => e.Scoped T Γ
  | .exprs, x, d, d' =>
    ∃ es, x = .exprs es ∧ Effect looseVar d d' [] id fun T Γ => Expr.AllScoped T Γ es
  -- A statement can come to nothing.
  | .statement, x, d, d' =>
    (x = .none ∧ d = d') ∨
      ∃ s, x = .stmt s ∧ Effect looseVar d d' s.binders (fun Γ => s.after Γ) fun T Γ => s.Scoped T Γ
  | .closed, x, d, d' =>
    ∃ s, x = .stmt s ∧ (∀ Γ, s.after Γ = Γ) ∧
      Effect looseVar d d' s.binders id fun T Γ => s.Scoped T Γ
  | .statements, x, d, d' =>
    ∃ ss, x = .stmts ss ∧ Effect looseVar d d' (Stmt.bindersAll ss) (fun Γ => Stmt.afterAll Γ ss)
      fun T Γ => Stmt.AllScoped T Γ ss
  | .blockOpen, x, d, d' => x = .none ∧ d' = d.setFrame d.frame.pushScope
  | .block, x, d, d' =>
    ∃ body, x = .stmts body ∧ Effect looseVar d d' (Stmt.bindersAll body) id
      fun T Γ => Stmt.AllScoped T (.block :: Γ) body
  | .forHead, x, d, d' =>
    ∃ label item collection filter pos d₁, Effect looseVar d d₁ [] id (fun T Γ =>
        collection.Scoped T Γ ∧ Expr.OptionScoped T Γ filter) ∧ d' = d₁.openLoop label item ∧
      x = .forHead ⟨label, (d₁.labels.index label).1, item, d₁.frame.nextSlot,
        d₁.frame.nextSlot + 1, collection, filter, pos⟩
  | .forLoop, x, d, d' =>
    ∃ head body, x = .forLoop head body ∧ Effect looseVar d d' (head.stmt body none).binders id
      fun T Γ => (head.stmt body none).Scoped T Γ
  | .functionHead, x, d, d' =>
    ∃ params, x = .functionHead params ∧ params.Nodup ∧ d' = d.openFunction params

-- The meaning of a symbol of the grammar.
def Makes (looseVar : Bool) (symbol : Symbol) (x : Sem Nat) (d d' : Draft) : Prop :=
  ∃ s : LanguageSymbol, s.symbol = symbol ∧ Reads looseVar (.ofSymbol s) x d d'

variable {looseVar : Bool}

theorem makes_symbol {s : LanguageSymbol} {x : Sem Nat} {d d' : Draft}
    (h : Makes looseVar s.symbol x d d') : Reads looseVar (.ofSymbol s) x d d' := by
  obtain ⟨s', hsymbol, hreads⟩ := h
  rwa [← LanguageSymbol.symbol_injective hsymbol]

-- Whenever the production builds something, that is the code of a tree whose names are what the
-- production makes of the names alone.
structure Yields (looseVar : Bool) (p : Production) (h : Handle (Sem Nat)) (d middle : Draft) :
    Prop where
  reads : ∀ {v d'}, Build.action ⟨looseVar, false⟩ p (h.map Sem.code) middle = .ok (v, d') →
    ∃ x, v = x.code ∧ Parse.action p (h.map Sem.names) = .ok x.names ∧
      Reads looseVar (.ofNonterminal p.sides.1) x d d'

-- Every way to read the right side of the production.
def Closes (looseVar : Bool) (p : Production) : Prop :=
  ∀ d, Always (fun s => Reads looseVar (.ofSymbol s)) p.sides.2
    (fun values middle => ∀ place, Yields looseVar p (.ofValues values place) d middle) d

theorem yields_of {p : Production} {h : Handle (Sem Nat)} {d middle d' : Draft} (x : Sem Nat)
    (hcode : Build.action ⟨looseVar, false⟩ p (h.map Sem.code) middle = .ok (x.code, d'))
    (hnames : Parse.action p (h.map Sem.names) = .ok x.names)
    (hreads : Reads looseVar (.ofNonterminal p.sides.1) x d d') : Yields looseVar p h d middle := by
  refine ⟨fun haction => ?_⟩
  rw [hcode] at haction
  cases haction
  exact ⟨x, rfl, hnames, hreads⟩

section Lists

variable {T : Terms} {Γ : Context}

theorem Expr.allScoped_append {es es' : List (Expr Nat)} :
    Expr.AllScoped T Γ (es ++ es') ↔ Expr.AllScoped T Γ es ∧ Expr.AllScoped T Γ es' := by
  induction es with
  | nil => exact (true_and _).to_iff.symm
  | cons e rest ih =>
      rw [List.cons_append, Expr.AllScoped, Expr.AllScoped, ih, and_assoc]

theorem Stmt.allScoped_append {ss ss' : List (Stmt Nat)} :
    Stmt.AllScoped T Γ (ss ++ ss') ↔
      Stmt.AllScoped T Γ ss ∧ Stmt.AllScoped T (Stmt.afterAll Γ ss) ss' := by
  induction ss generalizing Γ with
  | nil => exact (true_and _).to_iff.symm
  | cons s rest ih =>
      rw [List.cons_append, Stmt.AllScoped, Stmt.AllScoped, ih, and_assoc]
      rfl

theorem Stmt.afterAll_append (Γ : Context) (ss ss' : List (Stmt Nat)) :
    Stmt.afterAll Γ (ss ++ ss') = Stmt.afterAll (Stmt.afterAll Γ ss) ss' := by
  induction ss generalizing Γ with
  | nil => rfl
  | cons s rest ih => exact ih (s.after Γ)

theorem Stmt.bindersAll_append (ss ss' : List (Stmt Nat)) :
    Stmt.bindersAll (ss ++ ss') = Stmt.bindersAll ss ++ Stmt.bindersAll ss' := by
  induction ss with
  | nil => rfl
  | cons s rest ih =>
      rw [List.cons_append, Stmt.bindersAll, Stmt.bindersAll, ih, List.append_assoc]

end Lists

theorem statements_effect {d d₁ d' : Draft} {ss : List (Stmt Nat)} {s : Stmt Nat}
    (h : Effect looseVar d d₁ (Stmt.bindersAll ss) (fun Γ => Stmt.afterAll Γ ss)
      fun T Γ => Stmt.AllScoped T Γ ss)
    (h' : Effect looseVar d₁ d' s.binders (fun Γ => s.after Γ) fun T Γ => s.Scoped T Γ) :
    Effect looseVar d d' (Stmt.bindersAll (ss ++ [s])) (fun Γ => Stmt.afterAll Γ (ss ++ [s]))
      fun T Γ => Stmt.AllScoped T Γ (ss ++ [s]) := by
  have hboth := h.trans h'
  simp only [Stmt.bindersAll_append, Stmt.afterAll_append, Stmt.allScoped_append, Stmt.bindersAll,
    Stmt.AllScoped, List.append_nil, and_true]
  exact hboth

theorem closes_moreStatements : Closes looseVar .moreStatements := by
  rintro d _ d₁ ⟨ss, rfl, hss⟩ _ d₂ hstmt place
  rcases hstmt with ⟨rfl, rfl⟩ | ⟨s, rfl, hs⟩
  · refine yields_of (.stmts ss) rfl ?_ ⟨ss, rfl, hss⟩
    exact congrArg (fun ss => Except.ok (Sem.stmts ss)) (List.append_nil (Stmt.namesAll ss))
  · refine yields_of (.stmts (ss ++ [s])) ?_ ?_ ⟨_, rfl, statements_effect hss hs⟩
    · rw [Sem.code, Stmt.codeAll_eq_map, List.map_append, ← Stmt.codeAll_eq_map]
      rfl
    · rw [Sem.names, Stmt.namesAll_eq_map, List.map_append, ← Stmt.namesAll_eq_map]
      rfl

theorem closes_moreArguments : Closes looseVar .moreArguments := by
  rintro d _ d₁ ⟨es, rfl, hes⟩ _ _ ⟨rfl, rfl⟩ _ d₂ ⟨e, rfl, he⟩ place
  refine yields_of (.exprs (es ++ [e])) ?_ ?_ ⟨_, rfl, (hes.trans he).mono ?_⟩
  · rw [Sem.code, Expr.codeAll_eq_map, List.map_append, ← Expr.codeAll_eq_map]
    rfl
  · rw [Sem.names, Expr.namesAll_eq_map, List.map_append, ← Expr.namesAll_eq_map]
    rfl
  · intro T Γ h
    exact Expr.allScoped_append.mpr ⟨h.1, h.2, trivial⟩

theorem closes_declare : Closes looseVar .declare := by
  rintro d _ _ ⟨rfl, rfl⟩ _ _ ⟨name, rfl, rfl⟩ _ _ ⟨rfl, rfl⟩ place
  refine ⟨fun {v d'} haction => ?_⟩
  have haction : (Build.declare name (place 1).pos >>= fun slot =>
    pure (.stmt (.assign slot (.direct .null (place 1).pos) (place 1).pos))) d = .ok (v, d') :=
      haction
  obtain ⟨slot, d₁, hdeclare, hpure⟩ := Build.bind_eq_ok.mp haction
  cases hpure
  exact ⟨.stmt (.declare name slot none (place 1).pos), rfl, rfl,
    .inr ⟨_, rfl, (declare_effect hdeclare).mono fun h => ⟨trivial, h⟩⟩⟩

theorem closes_declareAssign : Closes looseVar .declareAssign := by
  rintro d _ _ ⟨rfl, rfl⟩ _ _ ⟨name, rfl, rfl⟩ _ _ ⟨rfl, rfl⟩ _ d₁ ⟨e, rfl, he⟩ _ _ ⟨rfl, rfl⟩ place
  refine ⟨fun {v d'} haction => ?_⟩
  have haction : (Build.declare name (place 1).pos >>= fun slot =>
    pure (.stmt (.assign slot e.code (place 1).pos))) d₁ = .ok (v, d') := haction
  obtain ⟨slot, d₂, hdeclare, hpure⟩ := Build.bind_eq_ok.mp haction
  cases hpure
  exact ⟨.stmt (.declare name slot (some e) (place 1).pos), rfl, rfl,
    .inr ⟨_, rfl, he.trans (declare_effect hdeclare)⟩⟩

theorem closes_assign : Closes looseVar .assign := by
  rintro d _ _ ⟨name, rfl, rfl⟩ _ _ ⟨rfl, rfl⟩ _ d₁ ⟨e, rfl, he⟩ _ _ ⟨rfl, rfl⟩ place
  refine ⟨fun {v d'} haction => ?_⟩
  have haction : (Build.resolve ⟨looseVar, false⟩ name (place 0).pos >>= fun slot =>
    pure (.stmt (.assign slot e.code (place 0).pos))) d₁ = .ok (v, d') := haction
  obtain ⟨slot, d₂, hresolve, hpure⟩ := Build.bind_eq_ok.mp haction
  cases hpure
  exact ⟨.stmt (.assign name slot e (place 0).pos), rfl, rfl,
    .inr ⟨_, rfl, he.trans (resolve_effect hresolve)⟩⟩

theorem closes_readVariable : Closes looseVar .readVariable := by
  rintro d _ _ ⟨name, rfl, rfl⟩ place
  refine ⟨fun {v d'} haction => ?_⟩
  have haction : (Build.resolve ⟨looseVar, false⟩ name (place 0).pos >>= fun slot =>
    pure (.expr (.var slot (place 0).pos))) d = .ok (v, d') := haction
  obtain ⟨slot, d₁, hresolve, hpure⟩ := Build.bind_eq_ok.mp haction
  cases hpure
  exact ⟨.expr (.var name slot (place 0).pos), rfl, rfl, _, rfl, resolve_effect hresolve⟩

theorem closes_loopStatus : Closes looseVar .loopStatus := by
  rintro d _ _ ⟨rfl, rfl⟩ _ _ ⟨rfl, rfl⟩ _ _ ⟨property, rfl, rfl⟩ place
  refine ⟨fun {v d'} haction => ?_⟩
  obtain ⟨rfl, rfl, l, hloop, rfl⟩ := Build.loopStatus_cases property rfl haction
  exact ⟨.expr (.iter l.iterSlot (place 0).pos), rfl, rfl, _, rfl, loopStatus_effect hloop⟩

-- A jump to the innermost loop, in the words of either keyword.
theorem closes_breakInnermost : Closes looseVar .breakInnermost := by
  rintro d _ _ ⟨rfl, rfl⟩ _ _ ⟨rfl, rfl⟩ place
  refine ⟨fun {v d'} haction => ?_⟩
  obtain ⟨target, d₁, htarget, hpure⟩ := Build.bind_eq_ok.mp haction
  obtain ⟨rfl, rfl, l, hloop⟩ := Build.innermostTarget_cases htarget
  cases hpure
  exact ⟨.stmt (.brk none (place 0).pos), rfl, rfl, .inr ⟨_, rfl, innermostTarget_effect hloop⟩⟩

theorem closes_continueInnermost : Closes looseVar .continueInnermost := by
  rintro d _ _ ⟨rfl, rfl⟩ _ _ ⟨rfl, rfl⟩ place
  refine ⟨fun {v d'} haction => ?_⟩
  obtain ⟨target, d₁, htarget, hpure⟩ := Build.bind_eq_ok.mp haction
  obtain ⟨rfl, rfl, l, hloop⟩ := Build.innermostTarget_cases htarget
  cases hpure
  exact ⟨.stmt (.cont none (place 0).pos), rfl, rfl, .inr ⟨_, rfl, innermostTarget_effect hloop⟩⟩

theorem closes_breakLabel : Closes looseVar .breakLabel := by
  rintro d _ _ ⟨rfl, rfl⟩ _ _ ⟨label, rfl, rfl⟩ _ _ ⟨rfl, rfl⟩ place
  refine ⟨fun {v d'} haction => ?_⟩
  obtain ⟨target, d₁, htarget, hpure⟩ := Build.bind_eq_ok.mp haction
  obtain ⟨i, rfl, rfl, hlookup, hloop⟩ := Build.labelledTarget_cases label rfl htarget
  cases hpure
  exact ⟨.stmt (.brk (some (label, i)) (place 0).pos), rfl, rfl,
    .inr ⟨_, rfl, labelledTarget_effect hlookup hloop⟩⟩

theorem closes_continueLabel : Closes looseVar .continueLabel := by
  rintro d _ _ ⟨rfl, rfl⟩ _ _ ⟨label, rfl, rfl⟩ _ _ ⟨rfl, rfl⟩ place
  refine ⟨fun {v d'} haction => ?_⟩
  obtain ⟨target, d₁, htarget, hpure⟩ := Build.bind_eq_ok.mp haction
  obtain ⟨i, rfl, rfl, hlookup, hloop⟩ := Build.labelledTarget_cases label rfl htarget
  cases hpure
  exact ⟨.stmt (.cont (some (label, i)) (place 0).pos), rfl, rfl,
    .inr ⟨_, rfl, labelledTarget_effect hlookup hloop⟩⟩

theorem closes_forHead : Closes looseVar .forHead := by
  rintro d _ _ ⟨rfl, rfl⟩ _ _ ⟨rfl, rfl⟩ _ _ ⟨item, rfl, rfl⟩ _ _ ⟨rfl, rfl⟩ _ d₁ ⟨e, rfl, he⟩ _ _
    ⟨rfl, rfl⟩ place
  exact yields_of (.forHead ⟨none, _, item, _, _, e, none, (place 0).pos⟩)
    (Build.openLoop_eq none item (place 2).pos e.code none (place 0).pos d₁) rfl
    ⟨_, item, e, none, _, d₁, he.mono fun h => ⟨h, trivial⟩, rfl, rfl⟩

theorem closes_forHeadWhere : Closes looseVar .forHeadWhere := by
  rintro d _ _ ⟨rfl, rfl⟩ _ _ ⟨rfl, rfl⟩ _ _ ⟨item, rfl, rfl⟩ _ _ ⟨rfl, rfl⟩ _ d₁ ⟨e, rfl, he⟩ _ _
    ⟨rfl, rfl⟩ _ d₂ ⟨test, rfl, htest⟩ _ _ ⟨rfl, rfl⟩ place
  exact yields_of (.forHead ⟨none, _, item, _, _, e, some test, (place 0).pos⟩)
    (Build.openLoop_eq none item (place 2).pos e.code (some test.code) (place 0).pos d₂) rfl
    ⟨_, item, e, some test, _, d₂, he.trans htest, rfl, rfl⟩

theorem closes_forHeadLabel : Closes looseVar .forHeadLabel := by
  rintro d _ _ ⟨label, rfl, rfl⟩ _ _ ⟨rfl, rfl⟩ _ _ ⟨rfl, rfl⟩ _ _ ⟨rfl, rfl⟩ _ _ ⟨item, rfl, rfl⟩
    _ _ ⟨rfl, rfl⟩ _ d₁ ⟨e, rfl, he⟩ _ _ ⟨rfl, rfl⟩ place
  exact yields_of (.forHead ⟨some label, _, item, _, _, e, none, (place 0).pos⟩)
    (Build.openLoop_eq (some label) item (place 4).pos e.code none (place 0).pos d₁) rfl
    ⟨_, item, e, none, _, d₁, he.mono fun h => ⟨h, trivial⟩, rfl, rfl⟩

theorem closes_forHeadLabelWhere : Closes looseVar .forHeadLabelWhere := by
  rintro d _ _ ⟨label, rfl, rfl⟩ _ _ ⟨rfl, rfl⟩ _ _ ⟨rfl, rfl⟩ _ _ ⟨rfl, rfl⟩ _ _ ⟨item, rfl, rfl⟩
    _ _ ⟨rfl, rfl⟩ _ d₁ ⟨e, rfl, he⟩ _ _ ⟨rfl, rfl⟩ _ d₂ ⟨test, rfl, htest⟩ _ _ ⟨rfl, rfl⟩ place
  exact yields_of (.forHead ⟨some label, _, item, _, _, e, some test, (place 0).pos⟩)
    (Build.openLoop_eq (some label) item (place 4).pos e.code (some test.code) (place 0).pos d₂) rfl
    ⟨_, item, e, some test, _, d₂, he.trans htest, rfl, rfl⟩

theorem closes_forLoop : Closes looseVar .forLoop := by
  rintro d _ _ ⟨label, item, collection, filter, pos, d₁, hhead, rfl, rfl⟩ _ d₂ ⟨body, rfl, hbody⟩
    place
  refine yields_of (.forLoop _ body) rfl rfl ⟨_, _, rfl, ?_⟩
  have hloop := hhead.trans (loop_effect hbody)
  have hdraft : (d₂.setFrame d₂.frame.popLoop).setFrame
      (d₂.setFrame d₂.frame.popLoop).frame.popScope =
        d₂.setFrame d₂.frame.popLoop.popScope := by
    rw [Draft.setFrame_setFrame, Draft.frame_setFrame]
  change Effect looseVar d ((d₂.setFrame d₂.frame.popLoop).setFrame
    (d₂.setFrame d₂.frame.popLoop).frame.popScope) _ _ _
  rw [hdraft]
  simp only [ForHead.stmt, Stmt.binders, Stmt.bindersOption, List.append_nil]
  refine hloop.mono fun h => ?_
  obtain ⟨⟨hcollection, hfilter⟩, ⟨hnumber, hiter, hitem⟩, hinside⟩ := h
  exact ⟨hcollection, hfilter, hnumber, hiter, hitem, (Nat.succ_ne_self _).symm, hinside, trivial⟩

theorem closes_forInElse : Closes looseVar .forInElse := by
  rintro d _ d₁ ⟨head, body, rfl, hloop⟩ _ _ ⟨rfl, rfl⟩ _ d₂ ⟨no, rfl, hno⟩ place
  refine yields_of (.stmt (head.stmt body (some no))) rfl rfl ⟨_, rfl, fun _ => rfl, ?_⟩
  have hboth := hloop.trans hno
  simp only [ForHead.stmt, Stmt.binders, Stmt.bindersOption, List.append_nil] at hboth ⊢
  refine hboth.mono fun h => ?_
  obtain ⟨⟨hcollection, hfilter, hnumber, hiter, hitem, hne, hbody, -⟩, hno⟩ := h
  exact ⟨hcollection, hfilter, hnumber, hiter, hitem, hne, hbody, hno⟩

theorem closes_functionHead : Closes looseVar .functionHead := by
  rintro d _ _ ⟨rfl, rfl⟩ _ _ ⟨rfl, rfl⟩ _ _ ⟨params, rfl, rfl⟩ _ _ ⟨rfl, rfl⟩ place
  refine ⟨fun {v d'} haction => ?_⟩
  have haction : (Build.declareAll (place 2).pos params >>= fun _ =>
    pure (.functionHead params.length)) (d.openFunction []) = .ok (v, d') := haction
  obtain ⟨_, d₁, hdeclared, hpure⟩ := Build.bind_eq_ok.mp haction
  obtain ⟨hnodup, rfl⟩ := Build.declareAll_ofParameters List.nodup_nil hdeclared
  cases hpure
  exact ⟨.functionHead params, rfl, rfl, params, rfl, hnodup, rfl⟩

-- Every production builds the code of a tree that is scoped rightly, if its parts are.
theorem closes (p : Production) : Closes looseVar p := by
  cases p with
  | start =>
      rintro d _ d₁ ⟨ss, rfl, hss⟩ _ _ ⟨rfl, rfl⟩ place
      exact yields_of (.stmts ss) rfl rfl ⟨ss, rfl, hss⟩
  | template =>
      rintro d _ d₁ ⟨ss, rfl, hss⟩ place
      exact yields_of (.stmts ss) rfl rfl ⟨ss, rfl, hss⟩
  | noStatements =>
      rintro d place
      exact yields_of (.stmts []) rfl rfl ⟨[], rfl, .pure fun _ _ => trivial⟩
  | moreStatements => exact closes_moreStatements
  | text =>
      rintro d _ _ ⟨s, rfl, rfl⟩ place
      exact yields_of (.stmt (.text s (place 0).pos)) rfl rfl
        (.inr ⟨_, rfl, .pure fun _ _ => trivial⟩)
  | placeholder =>
      rintro d _ _ ⟨rfl, rfl⟩ _ d₁ ⟨e, rfl, he⟩ _ _ ⟨rfl, rfl⟩ place
      exact yields_of (.stmt (.placeholder e (place 0).pos)) rfl rfl (.inr ⟨_, rfl, he⟩)
  | emptyStatement =>
      rintro d _ _ ⟨rfl, rfl⟩ place
      exact yields_of .none rfl rfl (.inl ⟨rfl, rfl⟩)
  | expressionStatement =>
      rintro d _ d₁ ⟨e, rfl, he⟩ _ _ ⟨rfl, rfl⟩ place
      exact yields_of (.stmt (.expr e)) rfl rfl (.inr ⟨_, rfl, he⟩)
  | declare => exact closes_declare
  | declareAssign => exact closes_declareAssign
  | assign => exact closes_assign
  | setProperty =>
      rintro d _ d₁ ⟨target, rfl, htarget⟩ _ _ ⟨rfl, rfl⟩ _ _ ⟨key, rfl, rfl⟩ _ _ ⟨rfl, rfl⟩ _ d₂
        ⟨e, rfl, he⟩ _ _ ⟨rfl, rfl⟩ place
      exact yields_of (.stmt (.setProperty target key e (place 1).pos)) rfl rfl
        (.inr ⟨_, rfl, htarget.trans he⟩)
  | setIndex =>
      rintro d _ d₁ ⟨target, rfl, htarget⟩ _ _ ⟨rfl, rfl⟩ _ d₂ ⟨key, rfl, hkey⟩ _ _ ⟨rfl, rfl⟩ _ _
        ⟨rfl, rfl⟩ _ d₃ ⟨e, rfl, he⟩ _ _ ⟨rfl, rfl⟩ place
      exact yields_of (.stmt (.setIndex target key e (place 1).pos)) rfl rfl
        (.inr ⟨_, rfl, htarget.trans (hkey.trans he)⟩)
  | blockStatement =>
      rintro d _ d₁ ⟨body, rfl, hbody⟩ place
      exact yields_of (.stmt (.block body)) rfl rfl (.inr ⟨_, rfl, hbody⟩)
  | ifStatement | forStatement =>
      rintro d _ d₁ ⟨s, rfl, hafter, hs⟩ place
      refine yields_of (.stmt s) rfl rfl (.inr ⟨s, rfl, ?_⟩)
      rw [show (fun Γ => s.after Γ) = id from funext hafter]
      exact hs
  | returnNothing =>
      rintro d _ _ ⟨rfl, rfl⟩ _ _ ⟨rfl, rfl⟩ place
      exact yields_of (.stmt (.ret none (place 0).pos)) rfl rfl
        (.inr ⟨_, rfl, .pure fun _ _ => trivial⟩)
  | returnValue =>
      rintro d _ _ ⟨rfl, rfl⟩ _ d₁ ⟨e, rfl, he⟩ _ _ ⟨rfl, rfl⟩ place
      exact yields_of (.stmt (.ret (some e) (place 0).pos)) rfl rfl (.inr ⟨_, rfl, he⟩)
  | breakInnermost => exact closes_breakInnermost
  | breakLabel => exact closes_breakLabel
  | continueInnermost => exact closes_continueInnermost
  | continueLabel => exact closes_continueLabel
  | blockOpen =>
      rintro d _ _ ⟨rfl, rfl⟩ place
      exact yields_of .none rfl rfl ⟨rfl, rfl⟩
  | block =>
      rintro d _ _ ⟨rfl, rfl⟩ _ d₁ ⟨body, rfl, hbody⟩ _ _ ⟨rfl, rfl⟩ place
      exact yields_of (.stmts body) rfl rfl ⟨body, rfl, block_effect hbody⟩
  | ifThen =>
      rintro d _ _ ⟨rfl, rfl⟩ _ _ ⟨rfl, rfl⟩ _ d₁ ⟨test, rfl, htest⟩ _ _ ⟨rfl, rfl⟩ _ d₂
        ⟨yes, rfl, hyes⟩ place
      exact yields_of (.stmt (.ifThen test yes (place 0).pos)) rfl rfl
        ⟨_, rfl, fun _ => rfl, htest.trans hyes⟩
  | ifThenElse =>
      rintro d _ _ ⟨rfl, rfl⟩ _ _ ⟨rfl, rfl⟩ _ d₁ ⟨test, rfl, htest⟩ _ _ ⟨rfl, rfl⟩ _ d₂
        ⟨yes, rfl, hyes⟩ _ _ ⟨rfl, rfl⟩ _ d₃ ⟨no, rfl, hno⟩ place
      exact yields_of (.stmt (.ifThenElse test yes no (place 0).pos)) rfl rfl
        ⟨_, rfl, fun _ => rfl, htest.trans (hyes.trans hno)⟩
  | ifThenElseIf =>
      rintro d _ _ ⟨rfl, rfl⟩ _ _ ⟨rfl, rfl⟩ _ d₁ ⟨test, rfl, htest⟩ _ _ ⟨rfl, rfl⟩ _ d₂
        ⟨yes, rfl, hyes⟩ _ _ ⟨rfl, rfl⟩ _ d₃ ⟨next, rfl, hafter, hnext⟩ place
      refine yields_of (.stmt (.ifThenElseIf test yes next (place 0).pos)) rfl rfl
        ⟨_, rfl, fun _ => rfl, (htest.trans (hyes.trans hnext)).mono ?_⟩
      intro T Γ h
      exact ⟨h.1, h.2.1, h.2.2, hafter Γ⟩
  | forHead => exact closes_forHead
  | forHeadWhere => exact closes_forHeadWhere
  | forHeadLabel => exact closes_forHeadLabel
  | forHeadLabelWhere => exact closes_forHeadLabelWhere
  | forLoop => exact closes_forLoop
  | forIn =>
      rintro d _ d₁ ⟨head, body, rfl, hloop⟩ place
      exact yields_of (.stmt (head.stmt body none)) rfl rfl ⟨_, rfl, fun _ => rfl, hloop⟩
  | forInElse => exact closes_forInElse
  | expression | orOperand | andOperand | bitOrOperand | bitXorOperand | bitAndOperand
  | equalityOperand | relationOperand | shiftOperand | rangeOperand | additiveOperand
  | productOperand | unaryOperand | postfixOperand | functionOperand =>
      rintro d _ d₁ ⟨e, rfl, he⟩ place
      exact yields_of (.expr e) rfl rfl ⟨e, rfl, he⟩
  | parenthesised =>
      rintro d _ _ ⟨rfl, rfl⟩ _ d₁ ⟨e, rfl, he⟩ _ _ ⟨rfl, rfl⟩ place
      exact yields_of (.expr e) rfl rfl ⟨e, rfl, he⟩
  | or =>
      rintro d _ d₁ ⟨left, rfl, hleft⟩ _ _ ⟨rfl, rfl⟩ _ d₂ ⟨right, rfl, hright⟩ place
      exact yields_of (.expr (.or left right (place 1).pos)) rfl rfl
        ⟨_, rfl, hleft.trans hright⟩
  | and =>
      rintro d _ d₁ ⟨left, rfl, hleft⟩ _ _ ⟨rfl, rfl⟩ _ d₂ ⟨right, rfl, hright⟩ place
      exact yields_of (.expr (.and left right (place 1).pos)) rfl rfl
        ⟨_, rfl, hleft.trans hright⟩
  | bitOr | bitXor | bitAnd | equal | notEqual | less | lessEqual | greater | greaterEqual
  | shiftLeft | shiftRight | shiftRightZero | range | plus | minus | times | divide | remainder =>
      rintro d _ d₁ ⟨left, rfl, hleft⟩ _ _ ⟨rfl, rfl⟩ _ d₂ ⟨right, rfl, hright⟩ place
      exact yields_of (.expr (.binary _ left right (place 1).pos)) rfl rfl
        ⟨_, rfl, hleft.trans hright⟩
  | negative | not | bitNot =>
      rintro d _ _ ⟨rfl, rfl⟩ _ d₁ ⟨operand, rfl, hoperand⟩ place
      exact yields_of (.expr (.unary _ operand (place 0).pos)) rfl rfl ⟨_, rfl, hoperand⟩
  | property =>
      rintro d _ d₁ ⟨target, rfl, htarget⟩ _ _ ⟨rfl, rfl⟩ _ _ ⟨key, rfl, rfl⟩ place
      exact yields_of (.expr (.property target key (place 1).pos)) rfl rfl ⟨_, rfl, htarget⟩
  | index =>
      rintro d _ d₁ ⟨target, rfl, htarget⟩ _ _ ⟨rfl, rfl⟩ _ d₂ ⟨key, rfl, hkey⟩ _ _ ⟨rfl, rfl⟩ place
      exact yields_of (.expr (.index target key (place 1).pos)) rfl rfl
        ⟨_, rfl, htarget.trans hkey⟩
  | callNothing =>
      rintro d _ d₁ ⟨callee, rfl, hcallee⟩ _ _ ⟨rfl, rfl⟩ _ _ ⟨rfl, rfl⟩ place
      exact yields_of (.expr (.call callee [] (place 1).pos)) rfl rfl
        ⟨_, rfl, hcallee.mono fun h => ⟨h, trivial⟩⟩
  | call =>
      rintro d _ d₁ ⟨callee, rfl, hcallee⟩ _ _ ⟨rfl, rfl⟩ _ d₂ ⟨args, rfl, hargs⟩ _ _ ⟨rfl, rfl⟩
        place
      exact yields_of (.expr (.call callee args (place 1).pos)) rfl rfl
        ⟨_, rfl, hcallee.trans hargs⟩
  | firstArgument =>
      rintro d _ d₁ ⟨e, rfl, he⟩ place
      exact yields_of (.exprs [e]) rfl rfl ⟨_, rfl, he.mono fun h => ⟨h, trivial⟩⟩
  | moreArguments => exact closes_moreArguments
  | readVariable => exact closes_readVariable
  | integer | float | string =>
      rintro d _ _ ⟨value, rfl, rfl⟩ place
      exact yields_of (.expr (.direct value (place 0).pos)) rfl rfl
        ⟨_, rfl, .pure fun _ _ => trivial⟩
  | literalTrue | literalFalse | literalNull =>
      rintro d _ _ ⟨rfl, rfl⟩ place
      exact yields_of (.expr (.direct _ (place 0).pos)) rfl rfl ⟨_, rfl, .pure fun _ _ => trivial⟩
  | emptyList =>
      rintro d _ _ ⟨rfl, rfl⟩ _ _ ⟨rfl, rfl⟩ place
      exact yields_of (.expr (.list [] (place 0).pos)) rfl rfl ⟨_, rfl, .pure fun _ _ => trivial⟩
  | list =>
      rintro d _ _ ⟨rfl, rfl⟩ _ d₁ ⟨items, rfl, hitems⟩ _ _ ⟨rfl, rfl⟩ place
      exact yields_of (.expr (.list items (place 0).pos)) rfl rfl ⟨_, rfl, hitems⟩
  | loopStatus => exact closes_loopStatus
  | functionHeadNothing =>
      rintro d _ _ ⟨rfl, rfl⟩ _ _ ⟨rfl, rfl⟩ _ _ ⟨rfl, rfl⟩ place
      exact yields_of (.functionHead []) rfl rfl ⟨[], rfl, List.nodup_nil, rfl⟩
  | functionHead => exact closes_functionHead
  | firstParameter =>
      rintro d _ _ ⟨name, rfl, rfl⟩ place
      exact yields_of (.params [name]) rfl rfl ⟨_, rfl, rfl⟩
  | moreParameters =>
      rintro d _ _ ⟨names, rfl, rfl⟩ _ _ ⟨rfl, rfl⟩ _ _ ⟨name, rfl, rfl⟩ place
      exact yields_of (.params (names ++ [name])) rfl rfl ⟨_, rfl, rfl⟩
  | function =>
      rintro d _ _ ⟨params, rfl, hparams, rfl⟩ _ d₂ ⟨body, rfl, hbody⟩ place
      exact yields_of (.expr (.function params d₂.frame.nextSlot body (place 0).pos)) rfl rfl
        ⟨_, rfl, function_effect hparams hbody⟩

end Stencil.Named
