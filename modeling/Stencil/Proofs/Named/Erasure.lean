import Stencil.Proofs.Named.Run

namespace Stencil.Named

variable {σ : Type}

def Function.names (f : Function σ) : Function Unit := ⟨f.params, (), Stmt.namesAll f.body, f.pos⟩

mutual

theorem Expr.functions_names (e : Expr σ) : e.names.functions = e.functions.map Function.names := by
  cases e with
  | direct value pos => rfl
  | var name slot pos => rfl
  | iter slot pos => rfl
  | binary op left right pos =>
      rw [Expr.names, Expr.functions, Expr.functions, Expr.functions_names, Expr.functions_names,
        List.map_append]
  | unary op operand pos => exact Expr.functions_names operand
  | and left right pos =>
      rw [Expr.names, Expr.functions, Expr.functions, Expr.functions_names, Expr.functions_names,
        List.map_append]
  | or left right pos =>
      rw [Expr.names, Expr.functions, Expr.functions, Expr.functions_names, Expr.functions_names,
        List.map_append]
  | property target key pos => exact Expr.functions_names target
  | index target key pos =>
      rw [Expr.names, Expr.functions, Expr.functions, Expr.functions_names, Expr.functions_names,
        List.map_append]
  | call callee args pos =>
      rw [Expr.names, Expr.functions, Expr.functions, Expr.functions_names,
        Expr.functionsAll_names, List.map_append]
  | function params frameSize body pos =>
      rw [Expr.names, Expr.functions, Expr.functions, Stmt.functionsAll_names, List.map_cons]
      rfl
  | list items pos => exact Expr.functionsAll_names items

theorem Expr.functionsAll_names (es : List (Expr σ)) :
    Expr.functionsAll (Expr.namesAll es) = (Expr.functionsAll es).map Function.names := by
  cases es with
  | nil => rfl
  | cons e rest =>
      rw [Expr.namesAll, Expr.functionsAll, Expr.functionsAll, Expr.functions_names,
        Expr.functionsAll_names, List.map_append]

theorem Expr.functionsOption_names (e : Option (Expr σ)) :
    Expr.functionsOption (Expr.namesOption e) = (Expr.functionsOption e).map Function.names := by
  cases e with
  | none => rfl
  | some e => exact Expr.functions_names e

theorem Stmt.functions_names (s : Stmt σ) : s.names.functions = s.functions.map Function.names := by
  cases s with
  | text text pos => rfl
  | placeholder expr pos => exact Expr.functions_names expr
  | expr expr => exact Expr.functions_names expr
  | declare name slot value pos => exact Expr.functionsOption_names value
  | assign name slot value pos => exact Expr.functions_names value
  | setProperty target key value pos =>
      rw [Stmt.names, Stmt.functions, Stmt.functions, Expr.functions_names, Expr.functions_names,
        List.map_append]
  | setIndex target key value pos =>
      rw [Stmt.names, Stmt.functions, Stmt.functions, Expr.functions_names, Expr.functions_names,
        Expr.functions_names, List.map_append, List.map_append]
  | block body => exact Stmt.functionsAll_names body
  | ifThen test yes pos =>
      rw [Stmt.names, Stmt.functions, Stmt.functions, Expr.functions_names,
        Stmt.functionsAll_names, List.map_append]
  | ifThenElse test yes no pos =>
      rw [Stmt.names, Stmt.functions, Stmt.functions, Expr.functions_names,
        Stmt.functionsAll_names, Stmt.functionsAll_names, List.map_append, List.map_append]
  | ifThenElseIf test yes next pos =>
      rw [Stmt.names, Stmt.functions, Stmt.functions, Expr.functions_names,
        Stmt.functionsAll_names, Stmt.functions_names, List.map_append, List.map_append]
  | forIn label number item iterSlot itemSlot collection filter body otherwise pos =>
      rw [Stmt.names, Stmt.functions, Stmt.functions, Expr.functions_names,
        Expr.functionsOption_names, Stmt.functionsAll_names, Stmt.functionsOption_names,
        List.map_append, List.map_append, List.map_append]
  | ret value pos => exact Expr.functionsOption_names value
  | brk label pos => rfl
  | cont label pos => rfl

theorem Stmt.functionsAll_names (ss : List (Stmt σ)) :
    Stmt.functionsAll (Stmt.namesAll ss) = (Stmt.functionsAll ss).map Function.names := by
  cases ss with
  | nil => rfl
  | cons s rest =>
      rw [Stmt.namesAll, Stmt.functionsAll, Stmt.functionsAll, Stmt.functions_names,
        Stmt.functionsAll_names, List.map_append]

theorem Stmt.functionsOption_names (ss : Option (List (Stmt σ))) :
    Stmt.functionsOption (Stmt.namesOption ss) =
      (Stmt.functionsOption ss).map Function.names := by
  cases ss with
  | none => rfl
  | some body => exact Stmt.functionsAll_names body

end

theorem Expr.pos_names (e : Expr σ) : e.names.pos = e.pos := by cases e <;> rfl

section Run

-- Both namings of functions agree on those of the tree, so runs by names do not tell the tree from
-- its names.
variable {code : Function σ → FunctionDecl} {code' : Function Unit → FunctionDecl}

def AgreeOn (code : Function σ → FunctionDecl) (code' : Function Unit → FunctionDecl)
    (fs : List (Function σ)) : Prop :=
  ∀ f ∈ fs, code' f.names = code f

theorem agreeOn_append {fs fs' : List (Function σ)} :
    AgreeOn code code' (fs ++ fs') ↔ AgreeOn code code' fs ∧ AgreeOn code code' fs' :=
  List.forall_mem_append

mutual

theorem evalExpr_names {k : Linkage} {e : Expr σ} (h : AgreeOn code code' e.functions) :
    evalExpr code' k e.names = evalExpr code k e := by
  cases e with
  | direct value pos => rfl
  | var name slot pos => rfl
  | iter slot pos => rfl
  | binary op left right pos =>
      obtain ⟨hleft, hright⟩ := agreeOn_append.mp h
      rw [Expr.names, evalExpr, evalExpr, evalExpr_names hleft, evalExpr_names hright]
  | unary op operand pos =>
      rw [Expr.names, evalExpr, evalExpr, evalExpr_names (e := operand) h]
  | and left right pos =>
      obtain ⟨hleft, hright⟩ := agreeOn_append.mp h
      rw [Expr.names, evalExpr, evalExpr, evalExpr_names hleft, evalExpr_names hright]
  | or left right pos =>
      obtain ⟨hleft, hright⟩ := agreeOn_append.mp h
      rw [Expr.names, evalExpr, evalExpr, evalExpr_names hleft, evalExpr_names hright]
  | property target key pos =>
      rw [Expr.names, evalExpr, evalExpr, evalExpr_names (e := target) h]
  | index target key pos =>
      obtain ⟨htarget, hkey⟩ := agreeOn_append.mp h
      rw [Expr.names, evalExpr, evalExpr, evalExpr_names htarget, evalExpr_names hkey]
  | call callee args pos =>
      obtain ⟨hcallee, hargs⟩ := agreeOn_append.mp h
      rw [Expr.names, evalExpr, evalExpr, evalExpr_names hcallee, evalExprs_names hargs]
  | function params frameSize body pos =>
      have hself :
          code' ⟨params, (), Stmt.namesAll body, pos⟩ = code ⟨params, frameSize, body, pos⟩ :=
        h _ List.mem_cons_self
      rw [Expr.names, evalExpr, evalExpr, hself]
  | list items pos => rw [Expr.names, evalExpr, evalExpr, evalExprs_names h]

theorem evalExprs_names {k : Linkage} {es : List (Expr σ)}
    (h : AgreeOn code code' (Expr.functionsAll es)) :
    evalExprs code' k (Expr.namesAll es) = evalExprs code k es := by
  cases es with
  | nil => rfl
  | cons e rest =>
      obtain ⟨hfirst, hrest⟩ := agreeOn_append.mp h
      rw [Expr.namesAll, evalExprs, evalExprs, evalExpr_names hfirst, evalExprs_names hrest]

end

theorem openLoop_names {k : Linkage} {collection : Expr σ} {filter : Option (Expr σ)}
    (hcollection : AgreeOn code code' collection.functions)
    (hfilter : AgreeOn code code' (Expr.functionsOption filter)) (pos : Position) :
    openLoop code' k collection.names (Expr.namesOption filter) pos =
      openLoop code k collection filter pos := by
  rw [openLoop, openLoop, evalExpr_names hcollection]
  cases filter with
  | none => rfl
  | some test => simp only [Expr.namesOption, Expr.pos_names, evalExpr_names (e := test) hfilter]

mutual

theorem execStmt_names {k : Linkage} {fuel : Nat} {s : Stmt σ}
    (h : AgreeOn code code' s.functions) :
    execStmt code' k fuel s.names = execStmt code k fuel s := by
  cases s with
  | text text pos => rw [Stmt.names, execStmt, execStmt]
  | placeholder expr pos =>
      rw [Stmt.names, execStmt, execStmt, evalExpr_names (e := expr) h]
  | expr expr => rw [Stmt.names, execStmt, execStmt, evalExpr_names (e := expr) h]
  | declare name slot value pos =>
      cases value with
      | none => rw [Stmt.names, Expr.namesOption, execStmt, execStmt]
      | some value =>
          rw [Stmt.names, Expr.namesOption, execStmt, execStmt, evalExpr_names (e := value) h]
  | assign name slot value pos =>
      rw [Stmt.names, execStmt, execStmt, evalExpr_names (e := value) h]
  | setProperty target key value pos =>
      obtain ⟨htarget, hvalue⟩ := agreeOn_append.mp h
      rw [Stmt.names, execStmt, execStmt, evalExpr_names htarget, evalExpr_names hvalue]
  | setIndex target key value pos =>
      obtain ⟨hplace, hvalue⟩ := agreeOn_append.mp h
      obtain ⟨htarget, hkey⟩ := agreeOn_append.mp hplace
      rw [Stmt.names, execStmt, execStmt, evalExpr_names htarget, evalExpr_names hkey,
        evalExpr_names hvalue]
  | block body => rw [Stmt.names, execStmt, execStmt, execAll_names h]
  | ifThen test yes pos =>
      obtain ⟨htest, hyes⟩ := agreeOn_append.mp h
      rw [Stmt.names, execStmt, execStmt, evalExpr_names htest, execAll_names hyes]
  | ifThenElse test yes no pos =>
      obtain ⟨hfirst, hno⟩ := agreeOn_append.mp h
      obtain ⟨htest, hyes⟩ := agreeOn_append.mp hfirst
      rw [Stmt.names, execStmt, execStmt, evalExpr_names htest, execAll_names hyes,
        execAll_names hno]
  | ifThenElseIf test yes next pos =>
      obtain ⟨hfirst, hnext⟩ := agreeOn_append.mp h
      obtain ⟨htest, hyes⟩ := agreeOn_append.mp hfirst
      rw [Stmt.names, execStmt, execStmt, evalExpr_names htest, execAll_names hyes,
        execStmt_names hnext]
  | forIn label number item iterSlot itemSlot collection filter body otherwise pos =>
      obtain ⟨hhead, hotherwise⟩ := agreeOn_append.mp h
      obtain ⟨hopen, hbody⟩ := agreeOn_append.mp hhead
      obtain ⟨hcollection, hfilter⟩ := agreeOn_append.mp hopen
      cases otherwise with
      | none =>
          rw [Stmt.names, Stmt.namesOption, execStmt, execStmt, openLoop_names hcollection hfilter,
            execAll_names hbody]
      | some stmts =>
          rw [Stmt.names, Stmt.namesOption, execStmt, execStmt, openLoop_names hcollection hfilter,
            execAll_names hbody, execAll_names hotherwise]
  | ret value pos =>
      cases value with
      | none => rfl
      | some value =>
          rw [Stmt.names, Expr.namesOption, execStmt, execStmt, evalExpr_names (e := value) h]
  | brk label pos => cases label <;> rfl
  | cont label pos => cases label <;> rfl

theorem execAll_names {k : Linkage} {fuel : Nat} {ss : List (Stmt σ)}
    (h : AgreeOn code code' (Stmt.functionsAll ss)) :
    execAll code' k fuel (Stmt.namesAll ss) = execAll code k fuel ss := by
  cases ss with
  | nil => rfl
  | cons s rest =>
      obtain ⟨hfirst, hrest⟩ := agreeOn_append.mp h
      rw [Stmt.namesAll, execAll, execAll, execStmt_names hfirst, execAll_names hrest]

end

end Run

end Stencil.Named
