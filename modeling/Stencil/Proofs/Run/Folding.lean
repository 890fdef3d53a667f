import Stencil.Proofs.Run.Frame
import Stencil.Proofs.Run.Pull
import Stencil.Proofs.Tree.Fold
import Stencil.Proofs.Value.Literal
import Stencil.Run.Call

namespace Stencil

theorem Expr.eq_direct_of_constant? {e : Expr} {a : Literal} (h : e.constant? = some a) :
    ∃ pos, e = .direct a pos := by
  cases e with
  | direct value pos =>
      cases h
      exact ⟨pos, rfl⟩
  | _ => cases h

theorem Expr.constant?_map_eq_some {e : Expr} {p : Bool}
    (h : e.constant?.map Literal.isTruthy = some p) :
    ∃ a pos, e = .direct a pos ∧ a.isTruthy = p := by
  obtain ⟨a, ha, rfl⟩ := Option.map_eq_some_iff.mp h
  obtain ⟨pos, rfl⟩ := eq_direct_of_constant? ha
  exact ⟨a, pos, rfl, rfl⟩

namespace Run

variable {k : Linkage}

theorem isTruthy_ofLiteral (a : Literal) : isTruthy (.ofLiteral a) = pure a.isTruthy := by
  funext act
  change (Except.ok ((Value.ofLiteral a).isTruthy act.world.heap), act) = _
  rw [Value.isTruthy_ofLiteral]
  rfl

-- One step of folding is the same computation: it reads no cell and raises nothing.
theorem evalExpr_optimize (e : Expr) : evalExpr k e.optimize = evalExpr k e := by
  cases e with
  | binary op left right pos =>
      rw [Expr.optimize]
      split
      · rename_i a b ha hb
        obtain ⟨leftPos, rfl⟩ := Expr.eq_direct_of_constant? ha
        obtain ⟨rightPos, rfl⟩ := Expr.eq_direct_of_constant? hb
        cases hfold : foldBinary op a b with
        | none => rfl
        | some value =>
            funext act
            change _ = RunM.ofExcept pos
              (Value.binary act.world.heap op (.ofLiteral a) (.ofLiteral b)) act
            rw [binary_of_foldBinary hfold]
            rfl
      · rfl
  | unary op operand pos =>
      rw [Expr.optimize]
      split
      · rename_i a ha
        obtain ⟨operandPos, rfl⟩ := Expr.eq_direct_of_constant? ha
        cases hfold : foldUnary op a with
        | none => rfl
        | some value =>
            funext act
            change _ = RunM.ofExcept pos (Value.unary act.world.heap op (.ofLiteral a)) act
            rw [unary_of_foldUnary hfold]
            rfl
      · rfl
  | and left right pos =>
      rw [Expr.optimize]
      split
      · rename_i hleft
        obtain ⟨a, leftPos, rfl, ha⟩ := Expr.constant?_map_eq_some hleft
        simp [evalExpr, isTruthy_ofLiteral, ha]
      · rename_i b hleft hright
        obtain ⟨a, leftPos, rfl, ha⟩ := Expr.constant?_map_eq_some hleft
        obtain ⟨rightPos, rfl⟩ := Expr.eq_direct_of_constant? hright
        simp [evalExpr, isTruthy_ofLiteral, ha]
      · rfl
  | or left right pos =>
      rw [Expr.optimize]
      split
      · rename_i hleft
        obtain ⟨a, leftPos, rfl, ha⟩ := Expr.constant?_map_eq_some hleft
        simp [evalExpr, isTruthy_ofLiteral, ha]
      · rename_i b hleft hright
        obtain ⟨a, leftPos, rfl, ha⟩ := Expr.constant?_map_eq_some hleft
        obtain ⟨rightPos, rfl⟩ := Expr.eq_direct_of_constant? hright
        simp [evalExpr, isTruthy_ofLiteral, ha]
      · rfl
  | _ => rfl

-- The branch that is left is the one that the condition takes.
theorem execStmt_branch (fuel : Nat) (test : Expr) (yes no : List Stmt) (pos : Position) :
    execStmt k fuel (.branch test yes no pos) = execStmt k fuel (.cond test yes no pos) := by
  rw [Stmt.branch]
  split
  · rename_i htest
    obtain ⟨a, testPos, rfl, ha⟩ := Expr.constant?_map_eq_some htest
    simp [execStmt, evalExpr, isTruthy_ofLiteral, ha]
  · rename_i htest
    obtain ⟨a, testPos, rfl, ha⟩ := Expr.constant?_map_eq_some htest
    simp [execStmt, evalExpr, isTruthy_ofLiteral, ha]
  · rfl

-- Every node of a folded tree goes the way of the node it was made from.
mutual

theorem evalExpr_fold (hk : k.Respects Stmt.foldAll) (e : Expr) :
    RunM.Respects Stmt.foldAll (Value.rebody Stmt.foldAll) (evalExpr k e) (evalExpr k e.fold) := by
  cases e with
  | direct value pos =>
      rw [Expr.fold, evalExpr]
      exact Mirrors.pure (Value.rebody_ofLiteral value).symm
  | var slot pos =>
      rw [Expr.fold, evalExpr]
      exact RunM.respects_getSlot slot
  | binary op left right pos =>
      rw [Expr.fold, evalExpr_optimize, evalExpr, evalExpr]
      refine Mirrors.bind (evalExpr_fold hk left) fun a => ?_
      refine Mirrors.bind (evalExpr_fold hk right) fun b => ?_
      refine RunM.respects_heap_bind fun heap hheap => ?_
      exact RunM.respects_ofExcept pos (Value.binary_rebody hheap op a b)
  | unary op operand pos =>
      rw [Expr.fold, evalExpr_optimize, evalExpr, evalExpr]
      refine Mirrors.bind (evalExpr_fold hk operand) fun a => ?_
      refine RunM.respects_heap_bind fun heap _ => ?_
      exact RunM.respects_ofExcept pos (Value.unary_rebody op a)
  | and left right pos =>
      rw [Expr.fold, evalExpr_optimize, evalExpr, evalExpr]
      refine Mirrors.bind (evalExpr_fold hk left) fun a => ?_
      refine Mirrors.bind (isTruthy_respects a) fun p => ?_
      cases p with
      | false => exact Mirrors.pure rfl
      | true =>
          refine Mirrors.bind (evalExpr_fold hk right) fun b => ?_
          exact Mirrors.bind (isTruthy_respects b) fun _ => Mirrors.pure rfl
  | or left right pos =>
      rw [Expr.fold, evalExpr_optimize, evalExpr, evalExpr]
      refine Mirrors.bind (evalExpr_fold hk left) fun a => ?_
      refine Mirrors.bind (isTruthy_respects a) fun p => ?_
      cases p with
      | true => exact Mirrors.pure rfl
      | false =>
          refine Mirrors.bind (evalExpr_fold hk right) fun b => ?_
          exact Mirrors.bind (isTruthy_respects b) fun _ => Mirrors.pure rfl
  | property target key pos =>
      rw [Expr.fold, evalExpr, evalExpr]
      refine Mirrors.bind (evalExpr_fold hk target) fun v => ?_
      exact RunM.respects_located pos (getProperty_respects hk v (.str key))
  | index target key pos =>
      rw [Expr.fold, evalExpr, evalExpr]
      refine Mirrors.bind (evalExpr_fold hk target) fun v => ?_
      refine Mirrors.bind (evalExpr_fold hk key) fun u => ?_
      exact RunM.respects_located pos (getProperty_respects hk v u)
  | call callee args pos =>
      rw [Expr.fold, evalExpr, evalExpr]
      refine Mirrors.bind (evalExpr_fold hk callee) fun v => ?_
      refine Mirrors.bind (evalExprs_fold hk args) fun vs => ?_
      exact RunM.respects_onWorld (hk.call v vs pos)
  | function arity frameSize body pos =>
      rw [Expr.fold, evalExpr, evalExpr]
      exact Mirrors.read fun _ _ => rfl
  | list items pos =>
      rw [Expr.fold, evalExpr, evalExpr]
      refine Mirrors.bind (evalExprs_fold hk items) fun vs => ?_
      exact RunM.respects_onWorld (WorldM.respects_newList vs)

theorem evalExprs_fold (hk : k.Respects Stmt.foldAll) (es : List Expr) :
    RunM.Respects Stmt.foldAll (List.map (Value.rebody Stmt.foldAll)) (evalExprs k es)
      (evalExprs k (Expr.foldAll es)) := by
  cases es with
  | nil =>
      rw [Expr.foldAll, evalExprs]
      exact Mirrors.pure rfl
  | cons e rest =>
      rw [Expr.foldAll, evalExprs, evalExprs]
      refine Mirrors.bind (evalExpr_fold hk e) fun v => ?_
      exact Mirrors.bind (evalExprs_fold hk rest) fun vs => Mirrors.pure rfl

end

theorem execStmt_forIn (fuel label iterSlot itemSlot : Nat) (collection : Expr)
    (filter : Option Expr) (body : List Stmt) (otherwise : Option (List Stmt)) (pos : Position) :
    execStmt k fuel (.forIn label iterSlot itemSlot collection filter body otherwise pos) = (do
      match ← openLoop k collection filter pos with
      | some ref =>
        RunM.insideLoop label do
          RunM.setSlot iterSlot (.iter ref)
          runLoop k label itemSlot pos ref (execBlock k fuel body) fuel
      | none => (otherwise.map (execBlock k fuel)).getD (return .normal)) := by
  cases otherwise <;> rw [execStmt] <;> rfl

theorem openLoop_fold (hk : k.Respects Stmt.foldAll) (collection : Expr) (filter : Option Expr)
    (pos : Position) :
    RunM.Respects Stmt.foldAll id (openLoop k collection filter pos)
      (openLoop k collection.fold (Expr.foldOption filter) pos) := by
  refine Mirrors.bind (evalExpr_fold hk collection) fun v => ?_
  refine RunM.respects_heap_bind fun heap hheap => ?_
  refine Mirrors.bind (RunM.respects_ofExcept pos (Iterator.ofValue_rebody hheap v)) fun it => ?_
  have hopen : ∀ it : Iterator, RunM.Respects Stmt.foldAll id
      (do
        let ref ← RunM.onWorld (WorldM.newIter it)
        if ← RunM.located pos (k.hasNext ref) then return some ref else return none)
      (do
        let ref ← RunM.onWorld (WorldM.newIter (it.rebody Stmt.foldAll))
        if ← RunM.located pos (k.hasNext ref) then return some ref else return none) := by
    intro it
    refine Mirrors.bind (RunM.respects_onWorld (WorldM.respects_newIter it)) fun ref => ?_
    refine Mirrors.bind (RunM.respects_located pos (hk.hasNext ref)) fun more => ?_
    cases more with
    | true => exact Mirrors.pure rfl
    | false => exact Mirrors.pure rfl
  cases it with
  | none => exact Mirrors.pure rfl
  | some it =>
      cases filter with
      | none => exact hopen it
      | some test =>
          simp only [Expr.foldOption, Option.map_some, Expr.pos_fold, pure_bind]
          refine Mirrors.bind (evalExpr_fold hk test) fun method => ?_
          exact hopen (it.filter (.script method test.pos))

mutual

theorem execStmt_fold (hk : k.Respects Stmt.foldAll) (fuel : Nat) (s : Stmt) :
    RunM.Respects Stmt.foldAll (Flow.rebody Stmt.foldAll) (execStmt k fuel s)
      (execStmt k fuel s.fold) := by
  cases s with
  | text text pos =>
      rw [Stmt.fold, execStmt]
      exact Mirrors.bind (RunM.respects_located pos (writeText_respects text)) fun _ =>
        Mirrors.pure rfl
  | placeholder expr pos =>
      rw [Stmt.fold, execStmt, execStmt]
      refine Mirrors.bind (evalExpr_fold hk expr) fun v => ?_
      exact Mirrors.bind (RunM.respects_located pos (writeValue_respects v)) fun _ =>
        Mirrors.pure rfl
  | expr expr =>
      rw [Stmt.fold, execStmt, execStmt]
      exact Mirrors.bind (evalExpr_fold hk expr) fun _ => Mirrors.pure rfl
  | assign slot value pos =>
      rw [Stmt.fold, execStmt, execStmt]
      refine Mirrors.bind (evalExpr_fold hk value) fun v => ?_
      exact Mirrors.bind (RunM.respects_setSlot slot v) fun _ => Mirrors.pure rfl
  | setProperty target key value pos =>
      rw [Stmt.fold, execStmt, execStmt]
      refine Mirrors.bind (evalExpr_fold hk target) fun t => ?_
      refine Mirrors.bind (evalExpr_fold hk value) fun v => ?_
      exact Mirrors.bind (assignProperty_respects t (.str key) v pos) fun _ => Mirrors.pure rfl
  | setIndex target key value pos =>
      rw [Stmt.fold, execStmt, execStmt]
      refine Mirrors.bind (evalExpr_fold hk target) fun t => ?_
      refine Mirrors.bind (evalExpr_fold hk key) fun u => ?_
      refine Mirrors.bind (evalExpr_fold hk value) fun v => ?_
      exact Mirrors.bind (assignProperty_respects t u v pos) fun _ => Mirrors.pure rfl
  | block body =>
      rw [Stmt.fold, execStmt, execStmt]
      exact execBlock_fold hk fuel body
  | cond test yes no pos =>
      rw [Stmt.fold, execStmt_branch, execStmt, execStmt]
      refine Mirrors.bind (evalExpr_fold hk test) fun v => ?_
      refine Mirrors.bind (isTruthy_respects v) fun p => ?_
      cases p with
      | true => exact execBlock_fold hk fuel yes
      | false => exact execBlock_fold hk fuel no
  | forIn label iterSlot itemSlot collection filter body otherwise pos =>
      rw [Stmt.fold, execStmt_forIn, execStmt_forIn]
      refine Mirrors.bind (openLoop_fold hk collection filter pos) fun ref => ?_
      cases ref with
      | some ref =>
          refine RunM.respects_insideLoop label ?_
          refine Mirrors.bind (RunM.respects_setSlot iterSlot (.iter ref)) fun _ => ?_
          exact runLoop_respects hk label itemSlot pos ref (execBlock_fold hk fuel body) fuel
      | none =>
          cases otherwise with
          | none => exact Mirrors.pure rfl
          | some stmts => exact execBlock_fold hk fuel stmts
  | ret value pos =>
      cases value with
      | none =>
          rw [Stmt.fold, Expr.foldOption, execStmt]
          exact Mirrors.pure rfl
      | some value =>
          rw [Stmt.fold, Expr.foldOption, execStmt, execStmt]
          exact Mirrors.bind (evalExpr_fold hk value) fun _ => Mirrors.pure rfl
  | brk label pos =>
      rw [Stmt.fold, execStmt]
      exact Mirrors.read fun _ _ => rfl
  | cont label pos =>
      rw [Stmt.fold, execStmt]
      exact Mirrors.read fun _ _ => rfl

theorem execBlock_fold (hk : k.Respects Stmt.foldAll) (fuel : Nat) (ss : List Stmt) :
    RunM.Respects Stmt.foldAll (Flow.rebody Stmt.foldAll) (execBlock k fuel ss)
      (execBlock k fuel (Stmt.foldAll ss)) := by
  cases ss with
  | nil =>
      rw [Stmt.foldAll, execBlock]
      exact Mirrors.pure rfl
  | cons s rest =>
      rw [Stmt.foldAll, execBlock, execBlock]
      refine Mirrors.bind (execStmt_fold hk fuel s) fun flow => ?_
      cases flow with
      | normal => exact execBlock_fold hk fuel rest
      | _ => exact Mirrors.pure rfl

end

theorem runBody_fold (hk : k.Respects Stmt.foldAll) (fuel : Nat) (body : List Stmt)
    (frame : Frame) :
    WorldM.Respects Stmt.foldAll (Flow.rebody Stmt.foldAll) (runBody k fuel body frame)
      (runBody k fuel (Stmt.foldAll body) (frame.rebody Stmt.foldAll)) := by
  intro w hw
  obtain ⟨hend, hblind⟩ := execBlock_fold hk fuel body ⟨frame, w⟩ hw
  refine ⟨?_, hblind⟩
  have hend : execBlock k fuel (Stmt.foldAll body)
      ⟨frame.rebody Stmt.foldAll, w.rebody Stmt.foldAll⟩ = _ := hend
  simp only [runBody, hend]
  rfl

end Run

-- A function of the host is blind to bodies if the iterators that it asks are.
def Native.Blind (native : Native) : Prop :=
  ∀ edit next, (∀ ref, WorldM.Respects edit (Value.rebody edit) (next ref) (next ref)) →
    ∀ args, WorldM.Respects edit (Value.rebody edit) (native.run next args)
      (native.run next (args.map (Value.rebody edit)))

namespace Run

variable {natives : Natives} {k : Linkage}

def Natives.Blind (natives : Natives) : Prop := ∀ native ∈ natives, native.Blind

theorem callNative_respects {edit : List Stmt → List Stmt} (hnatives : natives.Blind)
    (hk : k.Respects edit) (ref : Nat) (args : List Value) :
    WorldM.Respects edit (Value.rebody edit) (callNative natives k ref args)
      (callNative natives k ref (args.map (Value.rebody edit))) := by
  rw [callNative, callNative]
  split
  · rename_i native hnative
    exact hnatives native (Array.mem_of_getElem? hnative) edit k.next hk.next args
  · exact Mirrors.pure rfl

theorem invoke_fold (hnatives : natives.Blind) (hk : k.Respects Stmt.foldAll) (fuel : Nat)
    (callee : Value) (args : List Value) (pos : Position) :
    WorldM.Respects Stmt.foldAll (Value.rebody Stmt.foldAll) (invoke natives k fuel callee args pos)
      (invoke natives k fuel (callee.rebody Stmt.foldAll)
        (args.map (Value.rebody Stmt.foldAll)) pos) := by
  have hrefused : WorldM.Respects Stmt.foldAll (Value.rebody Stmt.foldAll)
      (do WorldM.fail ((Fault.notFunction (callee.typeName (← WorldM.heap))).located pos))
      (do WorldM.fail ((Fault.notFunction
        ((callee.rebody Stmt.foldAll).typeName (← WorldM.heap))).located pos)) := by
    refine WorldM.respects_heap_bind fun heap _ => ?_
    rw [Value.typeName_rebody]
    exact WorldM.respects_fail _ _
  cases callee with
  | function origin decl =>
      have hbody := runBody_fold hk fuel decl.body (.ofArgs origin decl.frameSize decl.arity args)
      rw [← Frame.ofArgs_rebody] at hbody
      refine Mirrors.bind hbody fun flow => ?_
      cases flow <;> exact Mirrors.pure rfl
  | native ref name =>
      exact WorldM.respects_mapError (Fault.located pos) (callNative_respects hnatives hk ref args)
  | _ => exact hrefused

theorem ask_respects {edit : List Stmt → List Stmt} (hnatives : natives.Blind)
    (hk : k.Respects edit) : Iterator.AsksAlike edit (ask natives k) := by
  intro method item
  cases method with
  | script callee pos =>
      exact WorldM.respects_mapError _ (WorldM.respects_silently (hk.call callee [item] pos))
  | native ref => exact callNative_respects hnatives hk ref [item]

-- Calls and iterators of one depth are made of those one level deeper.
theorem linkage_respects (hnatives : natives.Blind) (fuel : Nat) :
    (linkage natives fuel).Respects Stmt.foldAll := by
  induction fuel with
  | zero =>
      exact ⟨fun _ _ _ => WorldM.respects_exhausted _, fun _ => WorldM.respects_exhausted _,
        fun _ => WorldM.respects_exhausted _⟩
  | succ fuel ih =>
      constructor
      · intro callee args pos
        exact invoke_fold hnatives ih fuel callee args pos
      · intro ref
        exact Iterator.hasNextIn_respects (ask_respects hnatives ih) fuel ref
      · intro ref
        exact Iterator.nextIn_respects (ask_respects hnatives ih) fuel ref

end Run

end Stencil
