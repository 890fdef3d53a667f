import Stencil.Proofs.Parser.Map
import Stencil.Proofs.Tree.Fold
import Stencil.Tree.Build

namespace Stencil

def ForHead.fold (head : ForHead) : ForHead :=
  { head with collection := head.collection.fold, filter := Expr.foldOption head.filter }

def Sem.fold : Sem → Sem
  | .expr e => .expr e.fold
  | .exprs es => .exprs (Expr.foldAll es)
  | .stmt s => .stmt s.fold
  | .stmts ss => .stmts (Stmt.foldAll ss)
  | .forHead head => .forHead head.fold
  | .forLoop head body => .forLoop head.fold (Stmt.foldAll body)
  | v => v

theorem Sem.fold_ofLexeme (lexeme : Lexeme) : (Sem.ofLexeme lexeme).fold = .ofLexeme lexeme := by
  cases lexeme <;> rfl

namespace Build

theorem takeAs_fold {expected : String} {select : Sem → Option α} {f : α → α}
    (hselect : ∀ v : Sem, select v.fold = (select v).map f) (h : Handle) (i : Nat) :
    takeAs expected select (h.map Sem.fold) i = f <$> takeAs expected select h i := by
  have hvalue : ((h.map Sem.fold).value? i).bind select = ((h.value? i).bind select).map f := by
    rw [Parser.Handle.value?_map]
    cases h.value? i with
    | none => rfl
    | some v => exact hselect v
  rw [takeAs, takeAs, hvalue]
  cases (h.value? i).bind select with
  | none => rw [Option.map_none, mismatch, mismatch, Parser.Handle.posAt_map]; rfl
  | some a => rfl

section

variable (h : Handle) (i : Nat)

theorem takeExpr_fold : takeExpr (h.map Sem.fold) i = Expr.fold <$> takeExpr h i :=
  takeAs_fold (fun v => by cases v <;> rfl) h i

theorem takeExprs_fold : takeExprs (h.map Sem.fold) i = Expr.foldAll <$> takeExprs h i :=
  takeAs_fold (fun v => by cases v <;> rfl) h i

theorem takeStmt_fold : takeStmt (h.map Sem.fold) i = Stmt.fold <$> takeStmt h i :=
  takeAs_fold (fun v => by cases v <;> rfl) h i

theorem takeStmts_fold : takeStmts (h.map Sem.fold) i = Stmt.foldAll <$> takeStmts h i :=
  takeAs_fold (fun v => by cases v <;> rfl) h i

theorem takeForHead_fold : takeForHead (h.map Sem.fold) i = ForHead.fold <$> takeForHead h i :=
  takeAs_fold (fun v => by cases v <;> rfl) h i

theorem takeForLoop_fold :
    takeForLoop (h.map Sem.fold) i = Prod.map ForHead.fold Stmt.foldAll <$> takeForLoop h i :=
  takeAs_fold (fun v => by cases v <;> rfl) h i

theorem takeIdent_fold : takeIdent (h.map Sem.fold) i = takeIdent h i := by
  rw [takeIdent, takeAs_fold (f := id) (fun v => by cases v <;> rfl) h i, id_map]

theorem takeLiteral_fold : takeLiteral (h.map Sem.fold) i = takeLiteral h i := by
  rw [takeLiteral, takeAs_fold (f := id) (fun v => by cases v <;> rfl) h i, id_map]

theorem takeText_fold : takeText (h.map Sem.fold) i = takeText h i := by
  rw [takeText, takeAs_fold (f := id) (fun v => by cases v <;> rfl) h i, id_map]

theorem takeParams_fold : takeParams (h.map Sem.fold) i = takeParams h i := by
  rw [takeParams, takeAs_fold (f := id) (fun v => by cases v <;> rfl) h i, id_map]

theorem takeFunctionHead_fold : takeFunctionHead (h.map Sem.fold) i = takeFunctionHead h i := by
  rw [takeFunctionHead, takeAs_fold (f := id) (fun v => by cases v <;> rfl) h i, id_map]

theorem passOn_fold : passOn (h.map Sem.fold) i = Sem.fold <$> passOn h i := by
  rw [passOn, passOn, Parser.Handle.value?_map]
  cases h.value? i <;> rfl

end

section

variable (h : Handle)

theorem literal_fold (value : Literal) :
    literal value (h.map Sem.fold) = (literal value h).fold := by
  simp only [literal, Parser.Handle.posAt_map, Sem.fold, Expr.fold]

theorem innermostTarget_fold (keyword : String) :
    innermostTarget keyword (h.map Sem.fold) = innermostTarget keyword h := by
  simp only [innermostTarget, Parser.Handle.posAt_map]

theorem labelledTarget_fold : labelledTarget (h.map Sem.fold) = labelledTarget h := by
  simp only [labelledTarget, takeIdent_fold, Parser.Handle.posAt_map]

-- A variable has nothing to fold.
theorem loopStatus_fold : loopStatus (h.map Sem.fold) = Sem.fold <$> loopStatus h := by
  simp only [loopStatus, takeIdent_fold, Parser.Handle.posAt_map, map_bind]
  congr 1
  funext property
  split
  · rfl
  · simp only [map_bind]
    congr 1
    funext d
    cases d.scopes.innermostLoop? <;> rfl

theorem takeIdent_mapM_fold (i : Option Nat) :
    i.mapM (takeIdent (h.map Sem.fold)) = i.mapM (takeIdent h) := by
  cases i with
  | none => rfl
  | some i => simp only [Option.mapM_some, takeIdent_fold]

theorem takeExpr_mapM_fold (i : Option Nat) :
    i.mapM (takeExpr (h.map Sem.fold)) = Expr.foldOption <$> i.mapM (takeExpr h) := by
  cases i with
  | none => rfl
  | some i => simp only [Option.mapM_some, takeExpr_fold, Functor.map_map, Expr.foldOption]

theorem forHead_fold (labelAt : Option Nat) (itemAt : Nat) (filterAt : Option Nat) :
    forHead (h.map Sem.fold) labelAt itemAt filterAt =
      Sem.fold <$> forHead h labelAt itemAt filterAt := by
  simp only [forHead, takeIdent_mapM_fold, takeIdent_fold, takeExpr_fold, takeExpr_mapM_fold,
    bind_map_left, map_bind, map_pure, Parser.Handle.posAt_map]
  rfl

theorem moreStatements_fold (stmts : List Stmt) :
    (match (h.map Sem.fold).value? 1 with
      | some (.stmt s) => return .stmts (Stmt.foldAll stmts ++ [s])
      | some .none | none => return .stmts (Stmt.foldAll stmts)
      | some _ => mismatch (h.map Sem.fold) 1 "Stmt" : BuildM Sem) =
    Sem.fold <$> (match h.value? 1 with
      | some (.stmt s) => return .stmts (stmts ++ [s])
      | some .none | none => return .stmts stmts
      | some _ => mismatch h 1 "Stmt" : BuildM Sem) := by
  have hmismatch : (mismatch (h.map Sem.fold) 1 "Stmt" : BuildM Sem) =
      Sem.fold <$> mismatch h 1 "Stmt" := by
    rw [mismatch, mismatch, Parser.Handle.posAt_map]
    rfl
  rw [Parser.Handle.value?_map]
  cases h.value? 1 with
  | none => rfl
  | some v =>
      cases v with
      | stmt s => simp [Sem.fold]
      | none => rfl
      | _ => exact hmismatch

end

variable (looseVar : Bool) (h : Handle)

theorem action_binary (op : BinaryOp) :
    binary ⟨looseVar, true⟩ op (h.map Sem.fold) = Sem.fold <$> binary ⟨looseVar, false⟩ op h := by
  simp only [binary, takeExpr_fold, bind_map_left, map_bind, map_pure, Parser.Handle.posAt_map]
  rfl

theorem action_unary (op : UnaryOp) :
    unary ⟨looseVar, true⟩ op (h.map Sem.fold) = Sem.fold <$> unary ⟨looseVar, false⟩ op h := by
  simp only [unary, takeExpr_fold, bind_map_left, map_bind, map_pure, Parser.Handle.posAt_map]
  rfl

theorem action_logical {make : Expr → Expr → Position → Expr}
    (hmake : ∀ left right pos,
      (make left right pos).fold = (make left.fold right.fold pos).optimize) :
    logical ⟨looseVar, true⟩ make (h.map Sem.fold) =
      Sem.fold <$> logical ⟨looseVar, false⟩ make h := by
  simp only [logical, takeExpr_fold, bind_map_left, map_bind, map_pure, Parser.Handle.posAt_map,
    folded, Sem.fold, Bool.false_eq_true, if_false, if_true, hmake]

theorem action_ifStatement (no : List Stmt) :
    ifStatement ⟨looseVar, true⟩ (h.map Sem.fold) (Stmt.foldAll no) =
      Sem.fold <$> ifStatement ⟨looseVar, false⟩ h no := by
  simp only [ifStatement, takeExpr_fold, takeStmts_fold, bind_map_left, map_bind, map_pure,
    Parser.Handle.posAt_map]
  rfl

-- With folding, every production makes the folded form of what it makes without, from parts that
-- are folded.
theorem action_fold (p : Production) :
    action ⟨looseVar, true⟩ p (h.map Sem.fold) = Sem.fold <$> action ⟨looseVar, false⟩ p h := by
  cases p with
  | bitOr | bitXor | bitAnd | equal | notEqual | less | lessEqual | greater | greaterEqual
  | shiftLeft | shiftRight | shiftRightZero | range | plus | minus | times | divide | remainder =>
      exact action_binary looseVar h _
  | negative | not | bitNot => exact action_unary looseVar h _
  | or | and => exact action_logical looseVar h fun _ _ _ => rfl
  | ifThen => exact action_ifStatement looseVar h []
  | ifThenElse => simp only [action, takeStmts_fold, bind_map_left, map_bind, action_ifStatement]
  | ifThenElseIf =>
      simp only [action, takeStmt_fold, bind_map_left, map_bind]
      congr 1
      funext s
      exact action_ifStatement looseVar h [s]
  | forHead | forHeadWhere | forHeadLabel | forHeadLabelWhere => exact forHead_fold h _ _ _
  | loopStatus => exact loopStatus_fold h
  | template | ifStatement | forStatement | expression | orOperand | andOperand | bitOrOperand
  | bitXorOperand | bitAndOperand | equalityOperand | relationOperand | shiftOperand | rangeOperand
  | additiveOperand | productOperand | unaryOperand | postfixOperand | functionOperand
  | parenthesised => exact passOn_fold h _
  | moreStatements =>
      simp only [action, takeStmts_fold, bind_map_left, map_bind]
      congr 1
      funext stmts
      exact moreStatements_fold h stmts
  | moreArguments =>
      simp only [action, takeExprs_fold, takeExpr_fold, bind_map_left, map_bind, map_pure, Sem.fold,
        Expr.foldAll_eq_map, List.map_append, List.map_cons, List.map_nil]
  | integer | float | string | literalTrue | literalFalse | literalNull =>
      simp only [action, takeLiteral_fold, literal_fold, map_bind, map_pure]
  | _ =>
      simp only [action, takeExpr_fold, takeExprs_fold, takeIdent_fold, takeText_fold,
        takeStmts_fold, takeParams_fold, takeForHead_fold, takeForLoop_fold, takeFunctionHead_fold,
        innermostTarget_fold, labelledTarget_fold, bind_map_left, map_bind, map_pure,
        Parser.Handle.posAt_map]
      rfl

end Build

end Stencil
