import Stencil.Tree.Fold

namespace Stencil

namespace Expr

-- An expression that is not a literal yet stays as it is or becomes one at the same place.
theorem optimize_cases (e : Expr) :
    e.optimize = e ∨ ∃ value, e.optimize = .direct value e.pos := by
  cases e with
  | binary op left right pos =>
      rw [optimize]
      split
      · rename_i a b _ _
        cases foldBinary op a b with
        | none => exact .inl rfl
        | some value => exact .inr ⟨value, rfl⟩
      · exact .inl rfl
  | unary op operand pos =>
      rw [optimize]
      split
      · rename_i a _
        cases foldUnary op a with
        | none => exact .inl rfl
        | some value => exact .inr ⟨value, rfl⟩
      · exact .inl rfl
  | and left right pos =>
      rw [optimize]
      split
      · exact .inr ⟨_, rfl⟩
      · exact .inr ⟨_, rfl⟩
      · exact .inl rfl
  | or left right pos =>
      rw [optimize]
      split
      · exact .inr ⟨_, rfl⟩
      · exact .inr ⟨_, rfl⟩
      · exact .inl rfl
  | _ => exact .inl rfl

@[simp] theorem optimize_direct (value : Literal) (pos : Position) :
    (direct value pos).optimize = direct value pos := rfl

theorem optimize_idem (e : Expr) : e.optimize.optimize = e.optimize := by
  rcases e.optimize_cases with h | ⟨value, h⟩
  · rw [h, h]
  · rw [h, optimize_direct]

@[simp] theorem pos_optimize (e : Expr) : e.optimize.pos = e.pos := by
  rcases e.optimize_cases with h | ⟨value, h⟩
  · rw [h]
  · rw [h, pos]

end Expr

theorem Stmt.branch_cases (test : Expr) (yes no : List Stmt) (pos : Position) :
    branch test yes no pos = .block yes ∨ branch test yes no pos = .block no ∨
      branch test yes no pos = .cond test yes no pos := by
  rw [branch]
  split
  · exact .inl rfl
  · exact .inr (.inl rfl)
  · exact .inr (.inr rfl)

-- Folding a finished tree: from the leaves up every operator is worked out where its operands are
-- literals, and every condition that became one leaves the branch that runs. The bodies of
-- functions are folded as well.
mutual

def Expr.fold : Expr → Expr
  | .direct value pos => .direct value pos
  | .var slot pos => .var slot pos
  | .binary op left right pos => (Expr.binary op left.fold right.fold pos).optimize
  | .unary op operand pos => (Expr.unary op operand.fold pos).optimize
  | .and left right pos => (Expr.and left.fold right.fold pos).optimize
  | .or left right pos => (Expr.or left.fold right.fold pos).optimize
  | .property target key pos => .property target.fold key pos
  | .index target key pos => .index target.fold key.fold pos
  | .call callee args pos => .call callee.fold (Expr.foldAll args) pos
  | .function arity frameSize body pos => .function arity frameSize (Stmt.foldAll body) pos
  | .list items pos => .list (Expr.foldAll items) pos

def Expr.foldAll : List Expr → List Expr
  | [] => []
  | e :: rest => e.fold :: Expr.foldAll rest

def Expr.foldOption : Option Expr → Option Expr
  | none => none
  | some e => some e.fold

def Stmt.fold : Stmt → Stmt
  | .text text pos => .text text pos
  | .placeholder expr pos => .placeholder expr.fold pos
  | .expr expr => .expr expr.fold
  | .assign slot value pos => .assign slot value.fold pos
  | .setProperty target key value pos => .setProperty target.fold key value.fold pos
  | .setIndex target key value pos => .setIndex target.fold key.fold value.fold pos
  | .block body => .block (Stmt.foldAll body)
  | .cond test yes no pos => .branch test.fold (Stmt.foldAll yes) (Stmt.foldAll no) pos
  | .forIn label iterSlot itemSlot collection filter body otherwise pos =>
    .forIn label iterSlot itemSlot collection.fold (Expr.foldOption filter) (Stmt.foldAll body)
      (Stmt.foldOption otherwise) pos
  | .ret value pos => .ret (Expr.foldOption value) pos
  | .brk label pos => .brk label pos
  | .cont label pos => .cont label pos

def Stmt.foldAll : List Stmt → List Stmt
  | [] => []
  | s :: rest => s.fold :: Stmt.foldAll rest

def Stmt.foldOption : Option (List Stmt) → Option (List Stmt)
  | none => none
  | some body => some (Stmt.foldAll body)

end

@[simp] theorem Expr.foldAll_eq_map (es : List Expr) : foldAll es = es.map fold := by
  induction es with
  | nil => rfl
  | cons e rest ih => rw [foldAll, ih, List.map_cons]

@[simp] theorem Stmt.foldAll_eq_map (ss : List Stmt) : foldAll ss = ss.map fold := by
  induction ss with
  | nil => rfl
  | cons s rest ih => rw [foldAll, ih, List.map_cons]

-- Errors that a tree raises keep their places.
@[simp] theorem Expr.pos_fold (e : Expr) : e.fold.pos = e.pos := by
  cases e with
  | binary op left right pos => exact pos_optimize _
  | unary op operand pos => exact pos_optimize _
  | and left right pos => exact pos_optimize _
  | or left right pos => exact pos_optimize _
  | _ => rfl

-- A node whose parts are folded is folded by one step, and then folding has no more to do.
theorem Expr.fold_optimize {e : Expr} (h : e.fold = e.optimize) :
    e.optimize.fold = e.optimize := by
  rcases e.optimize_cases with hstay | ⟨value, hvalue⟩
  · rw [hstay, h, hstay]
  · rw [hvalue, fold]

theorem Stmt.fold_branch {test : Expr} {yes no : List Stmt} (htest : test.fold = test)
    (hyes : foldAll yes = yes) (hno : foldAll no = no) (pos : Position) :
    (branch test yes no pos).fold = branch test yes no pos := by
  rcases branch_cases test yes no pos with h | h | h
  · rw [h, fold, hyes]
  · rw [h, fold, hno]
  · rw [h, fold, htest, hyes, hno, h]

mutual

theorem Expr.fold_fold (e : Expr) : e.fold.fold = e.fold := by
  cases e with
  | direct value pos => rfl
  | var slot pos => rfl
  | binary op left right pos =>
      refine Expr.fold_optimize ?_
      rw [Expr.fold, left.fold_fold, right.fold_fold]
  | unary op operand pos =>
      refine Expr.fold_optimize ?_
      rw [Expr.fold, operand.fold_fold]
  | and left right pos =>
      refine Expr.fold_optimize ?_
      rw [Expr.fold, left.fold_fold, right.fold_fold]
  | or left right pos =>
      refine Expr.fold_optimize ?_
      rw [Expr.fold, left.fold_fold, right.fold_fold]
  | property target key pos => rw [Expr.fold, Expr.fold, target.fold_fold]
  | index target key pos => rw [Expr.fold, Expr.fold, target.fold_fold, key.fold_fold]
  | call callee args pos => rw [Expr.fold, Expr.fold, callee.fold_fold, Expr.foldAll_foldAll args]
  | function arity frameSize body pos => rw [Expr.fold, Expr.fold, Stmt.foldAll_foldAll body]
  | list items pos => rw [Expr.fold, Expr.fold, Expr.foldAll_foldAll items]

theorem Expr.foldAll_foldAll (es : List Expr) :
    Expr.foldAll (Expr.foldAll es) = Expr.foldAll es := by
  cases es with
  | nil => rfl
  | cons e rest => rw [Expr.foldAll, Expr.foldAll, e.fold_fold, Expr.foldAll_foldAll rest]

theorem Expr.foldOption_foldOption (e : Option Expr) :
    Expr.foldOption (Expr.foldOption e) = Expr.foldOption e := by
  cases e with
  | none => rfl
  | some e => rw [Expr.foldOption, Expr.foldOption, e.fold_fold]

theorem Stmt.fold_fold (s : Stmt) : s.fold.fold = s.fold := by
  cases s with
  | text text pos => rfl
  | placeholder expr pos => rw [Stmt.fold, Stmt.fold, expr.fold_fold]
  | expr expr => rw [Stmt.fold, Stmt.fold, expr.fold_fold]
  | assign slot value pos => rw [Stmt.fold, Stmt.fold, value.fold_fold]
  | setProperty target key value pos => rw [Stmt.fold, Stmt.fold, target.fold_fold, value.fold_fold]
  | setIndex target key value pos =>
      rw [Stmt.fold, Stmt.fold, target.fold_fold, key.fold_fold, value.fold_fold]
  | block body => rw [Stmt.fold, Stmt.fold, Stmt.foldAll_foldAll body]
  | cond test yes no pos =>
      exact Stmt.fold_branch test.fold_fold (Stmt.foldAll_foldAll yes) (Stmt.foldAll_foldAll no) pos
  | forIn label iterSlot itemSlot collection filter body otherwise pos =>
      rw [Stmt.fold, Stmt.fold, collection.fold_fold, Expr.foldOption_foldOption filter,
        Stmt.foldAll_foldAll body, Stmt.foldOption_foldOption otherwise]
  | ret value pos => rw [Stmt.fold, Stmt.fold, Expr.foldOption_foldOption value]
  | brk label pos => rfl
  | cont label pos => rfl

theorem Stmt.foldAll_foldAll (ss : List Stmt) :
    Stmt.foldAll (Stmt.foldAll ss) = Stmt.foldAll ss := by
  cases ss with
  | nil => rfl
  | cons s rest => rw [Stmt.foldAll, Stmt.foldAll, s.fold_fold, Stmt.foldAll_foldAll rest]

theorem Stmt.foldOption_foldOption (body : Option (List Stmt)) :
    Stmt.foldOption (Stmt.foldOption body) = Stmt.foldOption body := by
  cases body with
  | none => rfl
  | some body => rw [Stmt.foldOption, Stmt.foldOption, Stmt.foldAll_foldAll body]

end

end Stencil
