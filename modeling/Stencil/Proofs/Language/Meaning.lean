import Mathlib.Data.List.Forall2
import Stencil.Proofs.Token.Progress
import Stencil.Tree.Build

namespace Stencil

inductive SemKind where
  | none | identifier | literal | text | expr | exprs | stmt | stmts | params | forHead | forLoop
  | functionHead
  deriving DecidableEq

namespace Sem

def kind : Sem → SemKind
  | none => .none
  | identifier _ => .identifier
  | literal _ => .literal
  | text _ => .text
  | expr _ => .expr
  | exprs _ => .exprs
  | stmt _ => .stmt
  | stmts _ => .stmts
  | params _ => .params
  | forHead _ => .forHead
  | forLoop _ _ => .forLoop
  | functionHead _ => .functionHead

end Sem

def Terminal.kind : Terminal → SemKind
  | .identifier => .identifier
  | .integer | .float | .string => .literal
  | .text => .text
  | _ => .none

-- The kinds of meanings that a non-terminal can have. Only a statement can come to nothing.
def Nonterminal.kinds : Nonterminal → List SemKind
  | .start | .template | .statements | .block => [.stmts]
  | .statement => [.stmt, .none]
  | .ifStatement | .forStatement => [.stmt]
  | .blockOpen => [.none]
  | .forHead => [.forHead]
  | .forLoop => [.forLoop]
  | .arguments => [.exprs]
  | .functionHead => [.functionHead]
  | .parameters => [.params]
  | .expression | .orExpr | .andExpr | .bitOrExpr | .bitXorExpr | .bitAndExpr | .equalityExpr
  | .relationExpr | .shiftExpr | .rangeExpr | .additiveExpr | .productExpr | .unaryExpr
  | .postfixExpr | .primary | .functionExpr => [.expr]

namespace LanguageSymbol

def kinds : LanguageSymbol → List SemKind
  | t terminal => [terminal.kind]
  | n nonterminal => nonterminal.kinds

theorem symbol_injective {a b : LanguageSymbol} (h : a.symbol = b.symbol) : a = b := by
  cases a with
  | t s =>
      cases b with
      | t s' => rw [Terminal.id_injective (Symbol.terminal.inj h)]
      | n m => cases h
  | n m =>
      cases b with
      | t s => cases h
      | n m' =>
          have hm := Nonterminal.getElem?_all_id m
          rw [Symbol.nonterminal.inj h, Nonterminal.getElem?_all_id m'] at hm
          rw [Option.some.inj hm]

end LanguageSymbol

-- The meaning is of a kind that the symbol can have.
def Means (symbol : Symbol) (v : Sem) : Prop :=
  ∃ s : LanguageSymbol, s.symbol = symbol ∧ v.kind ∈ s.kinds

theorem means_symbol {s : LanguageSymbol} {v : Sem} (h : Means s.symbol v) : v.kind ∈ s.kinds := by
  obtain ⟨other, heq, hkind⟩ := h
  rwa [← LanguageSymbol.symbol_injective heq]

-- A token means what its lexeme says.
theorem means_token {t : Token} (h : t.terminal.carries t.lexeme = true) :
    Means (.terminal t.terminal.id) (.ofLexeme t.lexeme) := by
  refine ⟨.t t.terminal, rfl, ?_⟩
  rcases t with ⟨terminal, lexeme, pos⟩
  cases terminal <;> cases lexeme <;>
    simp_all [Terminal.carries, LanguageSymbol.kinds, Terminal.kind, Sem.kind, Sem.ofLexeme]

namespace Build

-- The action blames no tables, and its result has the property.
def Safe (m : BuildM α) (Q : α → Prop) : Prop :=
  ∀ d, match m d with
    | .ok (a, _) => Q a
    | .error e => ∀ reason, e.fault ≠ .corruptTables reason

theorem safe_pure {Q : α → Prop} {a : α} (h : Q a) : Safe (pure a) Q := fun _ => h

theorem safe_bind {P : α → Prop} {Q : β → Prop} {m : BuildM α} {f : α → BuildM β}
    (hm : Safe m P) (hf : ∀ a, P a → Safe (f a) Q) : Safe (m >>= f) Q := by
  intro d
  have hd := hm d
  simp only [bind, StateT.bind, Except.bind]
  cases hresult : m d with
  | error e =>
      rw [hresult] at hd
      exact hd
  | ok result =>
      rw [hresult] at hd
      exact hf result.1 hd result.2

theorem safe_fail {Q : α → Prop} {pos : Position} {fault : ParseFault}
    (h : ∀ reason, fault ≠ .corruptTables reason) : Safe (fail pos fault) Q := fun _ => h

theorem safe_get : Safe (get : BuildM Draft) fun _ => True := fun _ => trivial

theorem safe_set (d : Draft) : Safe (set d : BuildM PUnit) fun _ => True := fun _ => trivial

theorem safe_modifyScopes (change : Scopes → Scopes) : Safe (modifyScopes change) fun _ => True :=
  fun _ => trivial

-- A handle whose meanings fit the right side of the production.
def Typed (p : Production) (h : Handle) : Prop :=
  List.Forall₂ Means p.rule.right (h.frames.map Parser.Frame.value)

theorem Typed.value? {p : Production} {h : Handle} (ht : Typed p h) {i : Nat} {s : LanguageSymbol}
    (hs : p.sides.2[i]? = some s) : ∃ v, h.value? i = some v ∧ v.kind ∈ s.kinds := by
  have hright : p.rule.right[i]? = some s.symbol := by simp [Production.rule, hs]
  obtain ⟨hi, hsymbol⟩ := List.getElem?_eq_some_iff.mp hright
  have hlength := ht.length_eq
  have hframe : i < h.frames.length := by
    rw [List.length_map] at hlength
    omega
  have hmeans := ht.get hi (hlength ▸ hi)
  simp only [List.get_eq_getElem, hsymbol, List.getElem_map] at hmeans
  refine ⟨h.frames[i].value, ?_, means_symbol hmeans⟩
  simp [Parser.Handle.value?, List.getElem?_eq_getElem hframe]

theorem takeAs_safe {p : Production} {h : Handle} (ht : Typed p h) {expected : String}
    {select : Sem → Option α} {i : Nat} {s : LanguageSymbol} (hs : p.sides.2[i]? = some s)
    (hselect : ∀ v : Sem, v.kind ∈ s.kinds → (select v).isSome = true) :
    Safe (takeAs expected select h i) fun _ => True := by
  obtain ⟨v, hv, hkind⟩ := ht.value? hs
  obtain ⟨a, ha⟩ := Option.isSome_iff_exists.mp (hselect v hkind)
  simp only [takeAs, hv, Option.bind_some, ha]
  exact safe_pure trivial

section Takes

variable {p : Production} {h : Handle} {i : Nat} {s : LanguageSymbol}

theorem takeExpr_safe (ht : Typed p h) (hs : p.sides.2[i]? = some s) (hk : s.kinds = [.expr]) :
    Safe (takeExpr h i) fun _ => True :=
  takeAs_safe ht hs fun v hv => by cases v <;> simp_all [Sem.kind]

theorem takeExprs_safe (ht : Typed p h) (hs : p.sides.2[i]? = some s) (hk : s.kinds = [.exprs]) :
    Safe (takeExprs h i) fun _ => True :=
  takeAs_safe ht hs fun v hv => by cases v <;> simp_all [Sem.kind]

theorem takeIdent_safe (ht : Typed p h) (hs : p.sides.2[i]? = some s)
    (hk : s.kinds = [.identifier]) : Safe (takeIdent h i) fun _ => True :=
  takeAs_safe ht hs fun v hv => by cases v <;> simp_all [Sem.kind]

theorem takeLiteral_safe (ht : Typed p h) (hs : p.sides.2[i]? = some s)
    (hk : s.kinds = [.literal]) : Safe (takeLiteral h i) fun _ => True :=
  takeAs_safe ht hs fun v hv => by cases v <;> simp_all [Sem.kind]

theorem takeText_safe (ht : Typed p h) (hs : p.sides.2[i]? = some s) (hk : s.kinds = [.text]) :
    Safe (takeText h i) fun _ => True :=
  takeAs_safe ht hs fun v hv => by cases v <;> simp_all [Sem.kind]

theorem takeStmt_safe (ht : Typed p h) (hs : p.sides.2[i]? = some s) (hk : s.kinds = [.stmt]) :
    Safe (takeStmt h i) fun _ => True :=
  takeAs_safe ht hs fun v hv => by cases v <;> simp_all [Sem.kind]

theorem takeStmts_safe (ht : Typed p h) (hs : p.sides.2[i]? = some s) (hk : s.kinds = [.stmts]) :
    Safe (takeStmts h i) fun _ => True :=
  takeAs_safe ht hs fun v hv => by cases v <;> simp_all [Sem.kind]

theorem takeParams_safe (ht : Typed p h) (hs : p.sides.2[i]? = some s) (hk : s.kinds = [.params]) :
    Safe (takeParams h i) fun _ => True :=
  takeAs_safe ht hs fun v hv => by cases v <;> simp_all [Sem.kind]

theorem takeForHead_safe (ht : Typed p h) (hs : p.sides.2[i]? = some s)
    (hk : s.kinds = [.forHead]) : Safe (takeForHead h i) fun _ => True :=
  takeAs_safe ht hs fun v hv => by cases v <;> simp_all [Sem.kind]

theorem takeForLoop_safe (ht : Typed p h) (hs : p.sides.2[i]? = some s)
    (hk : s.kinds = [.forLoop]) : Safe (takeForLoop h i) fun _ => True :=
  takeAs_safe ht hs fun v hv => by cases v <;> simp_all [Sem.kind]

theorem takeFunctionHead_safe (ht : Typed p h) (hs : p.sides.2[i]? = some s)
    (hk : s.kinds = [.functionHead]) : Safe (takeFunctionHead h i) fun _ => True :=
  takeAs_safe ht hs fun v hv => by cases v <;> simp_all [Sem.kind]

theorem passOn_safe (ht : Typed p h) (hs : p.sides.2[i]? = some s) {kinds : List SemKind}
    (hk : s.kinds ⊆ kinds) : Safe (passOn h i) fun v => v.kind ∈ kinds := by
  obtain ⟨v, hv, hkind⟩ := ht.value? hs
  simp only [passOn, hv, Option.getD_some]
  exact safe_pure (hk hkind)

end Takes

theorem resolve_safe (options : BuildOptions) (name : String) (pos : Position) :
    Safe (resolve options name pos) fun _ => True := by
  refine safe_bind safe_get fun d _ => ?_
  split
  · exact safe_pure trivial
  · split
    · exact safe_bind (safe_set _) fun _ _ => safe_pure trivial
    · exact safe_fail (by simp)

theorem declare_fault {scopes : Scopes} {name : String} {fault : ParseFault}
    (h : scopes.declare name = .error fault) : fault = .duplicateVariable name := by
  simp only [Scopes.declare, FrameScope.declare] at h
  split at h
  · cases h
    rfl
  · cases h

theorem declare_safe (name : String) (pos : Position) : Safe (declare name pos) fun _ => True := by
  refine safe_bind safe_get fun d _ => ?_
  split
  · exact safe_bind (safe_set _) fun _ _ => safe_pure trivial
  · rename_i fault hfault
    exact safe_fail (by simp [declare_fault hfault])

theorem declareAll_safe (pos : Position) (names : List String) :
    Safe (declareAll pos names) fun _ => True := by
  induction names with
  | nil => exact safe_pure trivial
  | cons name rest ih => exact safe_bind (declare_safe name pos) fun _ _ => ih

theorem declareHidden_safe : Safe declareHidden fun _ => True :=
  safe_bind safe_get fun _ _ => safe_bind (safe_set _) fun _ _ => safe_pure trivial

theorem labelIndex_safe (label : Option String) : Safe (labelIndex label) fun _ => True :=
  safe_bind safe_get fun _ _ => safe_bind (safe_set _) fun _ _ => safe_pure trivial

theorem innermostTarget_safe (keyword : String) (h : Handle) :
    Safe (innermostTarget keyword h) fun _ => True := by
  refine safe_bind safe_get fun d _ => ?_
  split
  · exact safe_pure trivial
  · exact safe_fail (by simp)

section Actions

variable {p : Production} {h : Handle} (options : BuildOptions)

theorem labelledTarget_safe (ht : Typed p h) {s : LanguageSymbol} (hs : p.sides.2[1]? = some s)
    (hk : s.kinds = [.identifier]) : Safe (labelledTarget h) fun _ => True := by
  refine safe_bind (takeIdent_safe ht hs hk) fun label _ => safe_bind safe_get fun d _ => ?_
  split
  · split
    · exact safe_pure trivial
    · exact safe_fail (by simp)
  · exact safe_fail (by simp)

theorem loopStatus_safe (ht : Typed p h) {s : LanguageSymbol} (hs : p.sides.2[2]? = some s)
    (hk : s.kinds = [.identifier]) : Safe (loopStatus h) fun v => v.kind ∈ [SemKind.expr] := by
  refine safe_bind (takeIdent_safe ht hs hk) fun property _ => ?_
  split
  · exact safe_fail (by simp)
  · refine safe_bind safe_get fun d _ => ?_
    split
    · exact safe_pure (.head _)
    · exact safe_fail (by simp)

theorem binary_safe (ht : Typed p h) {left right : LanguageSymbol}
    (hleft : p.sides.2[0]? = some left) (hkl : left.kinds = [.expr])
    (hright : p.sides.2[2]? = some right) (hkr : right.kinds = [.expr]) (op : BinaryOp) :
    Safe (binary options op h) fun v => v.kind ∈ [SemKind.expr] :=
  safe_bind (takeExpr_safe ht hleft hkl) fun _ _ =>
    safe_bind (takeExpr_safe ht hright hkr) fun _ _ => safe_pure (.head _)

theorem logical_safe (ht : Typed p h) {left right : LanguageSymbol}
    (hleft : p.sides.2[0]? = some left) (hkl : left.kinds = [.expr])
    (hright : p.sides.2[2]? = some right) (hkr : right.kinds = [.expr])
    (make : Expr → Expr → Position → Expr) :
    Safe (logical options make h) fun v => v.kind ∈ [SemKind.expr] :=
  safe_bind (takeExpr_safe ht hleft hkl) fun _ _ =>
    safe_bind (takeExpr_safe ht hright hkr) fun _ _ => safe_pure (.head _)

theorem unary_safe (ht : Typed p h) {operand : LanguageSymbol}
    (hs : p.sides.2[1]? = some operand) (hk : operand.kinds = [.expr]) (op : UnaryOp) :
    Safe (unary options op h) fun v => v.kind ∈ [SemKind.expr] :=
  safe_bind (takeExpr_safe ht hs hk) fun _ _ => safe_pure (.head _)

theorem ifStatement_safe (ht : Typed p h) {test yes : LanguageSymbol}
    (htest : p.sides.2[2]? = some test) (hkt : test.kinds = [.expr])
    (hyes : p.sides.2[4]? = some yes) (hky : yes.kinds = [.stmts]) (no : List Stmt) :
    Safe (ifStatement options h no) fun v => v.kind ∈ [SemKind.stmt] :=
  safe_bind (takeExpr_safe ht htest hkt) fun _ _ =>
    safe_bind (takeStmts_safe ht hyes hky) fun _ _ => safe_pure (.head _)

theorem mapM_safe {f : Nat → BuildM α} {at? : Option Nat}
    (hf : ∀ i ∈ at?, Safe (f i) fun _ => True) : Safe (at?.mapM f) fun _ => True := by
  cases at? with
  | none => exact safe_pure trivial
  | some i => exact safe_bind (hf i rfl) fun _ _ => safe_pure trivial

theorem forHead_safe {labelAt filterAt : Option Nat} {itemAt : Nat}
    (hlabel : ∀ i ∈ labelAt, Safe (takeIdent h i) fun _ => True)
    (hitem : Safe (takeIdent h itemAt) fun _ => True)
    (hcollection : Safe (takeExpr h (itemAt + 2)) fun _ => True)
    (hfilter : ∀ i ∈ filterAt, Safe (takeExpr h i) fun _ => True) :
    Safe (forHead h labelAt itemAt filterAt) fun v => v.kind ∈ [SemKind.forHead] :=
  safe_bind (mapM_safe hlabel) fun _ _ => safe_bind hitem fun _ _ =>
    safe_bind hcollection fun _ _ => safe_bind (mapM_safe hfilter) fun _ _ =>
    safe_bind (labelIndex_safe _) fun _ _ => safe_bind (safe_modifyScopes _) fun _ _ =>
    safe_bind declareHidden_safe fun _ _ => safe_bind (declare_safe _ _) fun _ _ =>
    safe_bind (safe_modifyScopes _) fun _ _ => safe_pure (.head _)

-- A list of statements grows by whatever the statement comes to.
theorem moreStatements_safe (ht : Typed .moreStatements h) :
    Safe (action options .moreStatements h) fun v => v.kind ∈ [SemKind.stmts] := by
  refine safe_bind (takeStmts_safe ht rfl rfl) fun stmts _ => ?_
  obtain ⟨v, hv, hkind⟩ := ht.value? (i := 1) rfl
  rw [hv]
  cases v with
  | stmt s => exact safe_pure (.head _)
  | none => exact safe_pure (.head _)
  | _ => simp [Sem.kind, LanguageSymbol.kinds, Nonterminal.kinds] at hkind

-- Every production finds at each place of its handle the meaning it expects there, and gives its
-- left side one of those that others expect of it.
theorem action_safe (ht : Typed p h) :
    Safe (action options p h) fun v => v.kind ∈ p.sides.1.kinds := by
  cases p with
  | start => exact safe_bind (takeStmts_safe ht rfl rfl) fun _ _ => safe_pure (.head _)
  | noStatements => exact safe_pure (.head _)
  | moreStatements => exact moreStatements_safe options ht
  | text => exact safe_bind (takeText_safe ht rfl rfl) fun _ _ => safe_pure (.head _)
  | placeholder => exact safe_bind (takeExpr_safe ht rfl rfl) fun _ _ => safe_pure (.head _)
  | emptyStatement => exact safe_pure (.tail _ (.head _))
  | expressionStatement => exact safe_bind (takeExpr_safe ht rfl rfl) fun _ _ => safe_pure (.head _)
  | declare =>
      exact safe_bind (takeIdent_safe ht rfl rfl) fun _ _ =>
        safe_bind (declare_safe _ _) fun _ _ => safe_pure (.head _)
  | declareAssign =>
      exact safe_bind (takeIdent_safe ht rfl rfl) fun _ _ =>
        safe_bind (takeExpr_safe ht rfl rfl) fun _ _ =>
        safe_bind (declare_safe _ _) fun _ _ => safe_pure (.head _)
  | assign =>
      exact safe_bind (takeIdent_safe ht rfl rfl) fun _ _ =>
        safe_bind (takeExpr_safe ht rfl rfl) fun _ _ =>
        safe_bind (resolve_safe _ _ _) fun _ _ => safe_pure (.head _)
  | setProperty =>
      exact safe_bind (takeExpr_safe ht rfl rfl) fun _ _ =>
        safe_bind (takeIdent_safe ht rfl rfl) fun _ _ =>
        safe_bind (takeExpr_safe ht rfl rfl) fun _ _ => safe_pure (.head _)
  | setIndex =>
      exact safe_bind (takeExpr_safe ht rfl rfl) fun _ _ =>
        safe_bind (takeExpr_safe ht rfl rfl) fun _ _ =>
        safe_bind (takeExpr_safe ht rfl rfl) fun _ _ => safe_pure (.head _)
  | blockStatement => exact safe_bind (takeStmts_safe ht rfl rfl) fun _ _ => safe_pure (.head _)
  | template | ifStatement | forStatement | expression | orOperand | andOperand
  | bitOrOperand | bitXorOperand | bitAndOperand | equalityOperand | relationOperand
  | shiftOperand | rangeOperand | additiveOperand | productOperand | unaryOperand
  | postfixOperand | functionOperand | parenthesised => exact passOn_safe ht rfl (by decide)
  | returnNothing => exact safe_pure (.head _)
  | returnValue => exact safe_bind (takeExpr_safe ht rfl rfl) fun _ _ => safe_pure (.head _)
  | breakInnermost | continueInnermost =>
      exact safe_bind (innermostTarget_safe _ h) fun _ _ => safe_pure (.head _)
  | breakLabel | continueLabel =>
      exact safe_bind (labelledTarget_safe ht rfl rfl) fun _ _ => safe_pure (.head _)
  | blockOpen => exact safe_bind (safe_modifyScopes _) fun _ _ => safe_pure (.head _)
  | block =>
      exact safe_bind (safe_modifyScopes _) fun _ _ =>
        safe_bind (takeStmts_safe ht rfl rfl) fun _ _ => safe_pure (.head _)
  | ifThen => exact ifStatement_safe options ht rfl rfl rfl rfl _
  | ifThenElse =>
      exact safe_bind (takeStmts_safe ht rfl rfl) fun _ _ =>
        ifStatement_safe options ht rfl rfl rfl rfl _
  | ifThenElseIf =>
      exact safe_bind (takeStmt_safe ht rfl rfl) fun _ _ =>
        ifStatement_safe options ht rfl rfl rfl rfl _
  | forHead =>
      exact forHead_safe (by simp) (takeIdent_safe ht rfl rfl) (takeExpr_safe ht rfl rfl) (by simp)
  | forHeadWhere =>
      exact forHead_safe (by simp) (takeIdent_safe ht rfl rfl) (takeExpr_safe ht rfl rfl)
        (by rintro i ⟨⟩; exact takeExpr_safe ht rfl rfl)
  | forHeadLabel =>
      exact forHead_safe (by rintro i ⟨⟩; exact takeIdent_safe ht rfl rfl)
        (takeIdent_safe ht rfl rfl) (takeExpr_safe ht rfl rfl) (by simp)
  | forHeadLabelWhere =>
      exact forHead_safe (by rintro i ⟨⟩; exact takeIdent_safe ht rfl rfl)
        (takeIdent_safe ht rfl rfl) (takeExpr_safe ht rfl rfl)
        (by rintro i ⟨⟩; exact takeExpr_safe ht rfl rfl)
  | forLoop =>
      exact safe_bind (takeForHead_safe ht rfl rfl) fun _ _ =>
        safe_bind (takeStmts_safe ht rfl rfl) fun _ _ =>
        safe_bind (safe_modifyScopes _) fun _ _ =>
        safe_bind (safe_modifyScopes _) fun _ _ => safe_pure (.head _)
  | forIn => exact safe_bind (takeForLoop_safe ht rfl rfl) fun _ _ => safe_pure (.head _)
  | forInElse =>
      exact safe_bind (takeForLoop_safe ht rfl rfl) fun _ _ =>
        safe_bind (takeStmts_safe ht rfl rfl) fun _ _ => safe_pure (.head _)
  | or | and => exact logical_safe options ht rfl rfl rfl rfl _
  | bitOr | bitXor | bitAnd | equal | notEqual | less | lessEqual | greater | greaterEqual
  | shiftLeft | shiftRight | shiftRightZero | range | plus | minus | times | divide | remainder =>
      exact binary_safe options ht rfl rfl rfl rfl _
  | negative | not | bitNot => exact unary_safe options ht rfl rfl _
  | property =>
      exact safe_bind (takeExpr_safe ht rfl rfl) fun _ _ =>
        safe_bind (takeIdent_safe ht rfl rfl) fun _ _ => safe_pure (.head _)
  | index =>
      exact safe_bind (takeExpr_safe ht rfl rfl) fun _ _ =>
        safe_bind (takeExpr_safe ht rfl rfl) fun _ _ => safe_pure (.head _)
  | callNothing => exact safe_bind (takeExpr_safe ht rfl rfl) fun _ _ => safe_pure (.head _)
  | call =>
      exact safe_bind (takeExpr_safe ht rfl rfl) fun _ _ =>
        safe_bind (takeExprs_safe ht rfl rfl) fun _ _ => safe_pure (.head _)
  | firstArgument => exact safe_bind (takeExpr_safe ht rfl rfl) fun _ _ => safe_pure (.head _)
  | moreArguments =>
      exact safe_bind (takeExprs_safe ht rfl rfl) fun _ _ =>
        safe_bind (takeExpr_safe ht rfl rfl) fun _ _ => safe_pure (.head _)
  | readVariable =>
      exact safe_bind (takeIdent_safe ht rfl rfl) fun _ _ =>
        safe_bind (resolve_safe _ _ _) fun _ _ => safe_pure (.head _)
  | integer | float | string =>
      exact safe_bind (takeLiteral_safe ht rfl rfl) fun _ _ => safe_pure (.head _)
  | literalTrue | literalFalse | literalNull | emptyList => exact safe_pure (.head _)
  | list => exact safe_bind (takeExprs_safe ht rfl rfl) fun _ _ => safe_pure (.head _)
  | loopStatus => exact loopStatus_safe ht rfl rfl
  | functionHeadNothing => exact safe_bind (safe_modifyScopes _) fun _ _ => safe_pure (.head _)
  | functionHead =>
      exact safe_bind (takeParams_safe ht rfl rfl) fun _ _ =>
        safe_bind (safe_modifyScopes _) fun _ _ =>
        safe_bind (declareAll_safe _ _) fun _ _ => safe_pure (.head _)
  | firstParameter => exact safe_bind (takeIdent_safe ht rfl rfl) fun _ _ => safe_pure (.head _)
  | moreParameters =>
      exact safe_bind (takeParams_safe ht rfl rfl) fun _ _ =>
        safe_bind (takeIdent_safe ht rfl rfl) fun _ _ => safe_pure (.head _)
  | function =>
      exact safe_bind (takeFunctionHead_safe ht rfl rfl) fun _ _ =>
        safe_bind (takeStmts_safe ht rfl rfl) fun _ _ => safe_bind safe_get fun _ _ =>
        safe_bind (safe_set _) fun _ _ => safe_pure (.head _)

end Actions

end Build

end Stencil
