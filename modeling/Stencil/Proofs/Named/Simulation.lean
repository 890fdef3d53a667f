import Stencil.Proofs.Named.Follow
import Stencil.Proofs.Run.Folding

namespace Stencil.Named

variable {T : Terms} {Γ : Context} {iters : List (Option Nat)}

-- A jump means the loop of a number: the innermost one, or one that has the label.
def Terms.Means (T : Terms) (Γ : Context) : Option String → Nat → Prop
  | none, number => Γ.loops.head?.map (fun l => T.labelNumber l.label) = some number
  | some label, number => number = T.number label ∧ ∃ l ∈ Γ.loops, l.label = some label

-- The two ways in which control leaves a statement.
inductive Matches (T : Terms) (Γ : Context) : Exit → Flow → Prop where
  | normal : Matches T Γ .normal .normal
  | brk {target : Option String} {number : Nat} (means : T.Means Γ target number) :
      Matches T Γ (.brk target) (.brk number)
  | cont {target : Option String} {number : Nat} (means : T.Means Γ target number) :
      Matches T Γ (.cont target) (.cont number)
  | ret (v : Value) : Matches T Γ (.ret v) (.ret v)

theorem Matches.of_loops {Γ' : Context} (hloops : Γ'.loops = Γ.loops) {exit : Exit} {flow : Flow}
    (h : Matches T Γ exit flow) : Matches T Γ' exit flow := by
  have hmeans : T.Means Γ' = T.Means Γ := by
    funext target number
    cases target <;> rw [Terms.Means, Terms.Means, hloops]
  cases h with
  | normal => exact .normal
  | brk means => exact .brk (hmeans ▸ means)
  | cont means => exact .cont (hmeans ▸ means)
  | ret v => exact .ret v

section Evaluate

variable {k : Linkage}

mutual

theorem evalExpr_follows {e : Expr Nat} (h : e.Scoped T Γ) :
    Follows (Inv T Γ iters) (Same (Inv T Γ iters)) (evalExpr Function.decl k e)
      (Run.evalExpr k e.code.fold) := by
  cases e with
  | direct value pos => exact .pure fun _ _ hpre => ⟨rfl, hpre⟩
  | var name slot pos => exact lookup_follows h pos
  | iter slot pos => exact iter_follows h pos
  | binary op left right pos =>
      rw [Expr.code, Stencil.Expr.fold, Run.evalExpr_optimize, Run.evalExpr, evalExpr]
      refine .bind_same (evalExpr_follows h.1) fun a => ?_
      refine .bind_same (evalExpr_follows h.2) fun b => ?_
      exact Inv.steady.heap_bind fun heap => Inv.steady.ofExcept pos _
  | unary op operand pos =>
      rw [Expr.code, Stencil.Expr.fold, Run.evalExpr_optimize, Run.evalExpr, evalExpr]
      refine .bind_same (evalExpr_follows h) fun a => ?_
      exact Inv.steady.heap_bind fun heap => Inv.steady.ofExcept pos _
  | and left right pos =>
      rw [Expr.code, Stencil.Expr.fold, Run.evalExpr_optimize, Run.evalExpr, evalExpr]
      refine .bind_same (evalExpr_follows h.1) fun a => ?_
      refine .bind_same (Inv.steady.isTruthy a) fun p => ?_
      cases p with
      | false => exact .pure fun _ _ hpre => ⟨rfl, hpre⟩
      | true =>
          refine .bind_same (evalExpr_follows h.2) fun b => ?_
          exact .bind_same (Inv.steady.isTruthy b) fun q => .pure fun _ _ hpre => ⟨rfl, hpre⟩
  | or left right pos =>
      rw [Expr.code, Stencil.Expr.fold, Run.evalExpr_optimize, Run.evalExpr, evalExpr]
      refine .bind_same (evalExpr_follows h.1) fun a => ?_
      refine .bind_same (Inv.steady.isTruthy a) fun p => ?_
      cases p with
      | true => exact .pure fun _ _ hpre => ⟨rfl, hpre⟩
      | false =>
          refine .bind_same (evalExpr_follows h.2) fun b => ?_
          exact .bind_same (Inv.steady.isTruthy b) fun q => .pure fun _ _ hpre => ⟨rfl, hpre⟩
  | property target key pos =>
      rw [Expr.code, Stencil.Expr.fold, Run.evalExpr, evalExpr]
      refine .bind_same (evalExpr_follows h) fun v => ?_
      exact Inv.steady.located pos _
  | index target key pos =>
      rw [Expr.code, Stencil.Expr.fold, Run.evalExpr, evalExpr]
      refine .bind_same (evalExpr_follows h.1) fun v => ?_
      refine .bind_same (evalExpr_follows h.2) fun u => ?_
      exact Inv.steady.located pos _
  | call callee args pos =>
      rw [Expr.code, Stencil.Expr.fold, Run.evalExpr, evalExpr]
      refine .bind_same (evalExpr_follows h.1) fun v => ?_
      refine .bind_same (evalExprs_follows h.2) fun vs => ?_
      exact Inv.steady.onWorld _
  | function params frameSize body pos =>
      rw [Expr.code, Stencil.Expr.fold, Run.evalExpr, evalExpr]
      intro s a hpre
      refine .ok ⟨?_, hpre⟩
      rw [hpre.origin]
      rfl
  | list items pos =>
      rw [Expr.code, Stencil.Expr.fold, Run.evalExpr, evalExpr]
      refine .bind_same (evalExprs_follows h) fun vs => ?_
      exact Inv.steady.onWorld _

theorem evalExprs_follows {es : List (Expr Nat)} (h : Expr.AllScoped T Γ es) :
    Follows (Inv T Γ iters) (Same (Inv T Γ iters)) (evalExprs Function.decl k es)
      (Run.evalExprs k (Stencil.Expr.foldAll (Expr.codeAll es))) := by
  cases es with
  | nil => exact .pure fun _ _ hpre => ⟨rfl, hpre⟩
  | cons e rest =>
      rw [Expr.codeAll, Stencil.Expr.foldAll, Run.evalExprs, evalExprs]
      refine .bind_same (evalExpr_follows h.1) fun v => ?_
      exact .bind_same (evalExprs_follows h.2) fun vs => .pure fun _ _ hpre => ⟨rfl, hpre⟩

end

theorem openLoop_follows {collection : Expr Nat} {filter : Option (Expr Nat)}
    (hcollection : collection.Scoped T Γ) (hfilter : Expr.OptionScoped T Γ filter)
    (pos : Position) :
    Follows (Inv T Γ iters) (Same (Inv T Γ iters))
      (openLoop Function.decl k collection filter pos)
      (Run.openLoop k collection.code.fold (Stencil.Expr.foldOption (Expr.codeOption filter))
        pos) := by
  refine .bind_same (evalExpr_follows hcollection) fun v => ?_
  refine Inv.steady.heap_bind fun heap => ?_
  refine .bind_same (Inv.steady.ofExcept pos _) fun it => ?_
  have hopen : ∀ it : Iterator, Follows (Inv T Γ iters) (Same (Inv T Γ iters))
      (do
        let ref ← NameM.onWorld (WorldM.newIter it)
        if ← NameM.located pos (k.hasNext ref) then return some ref else return none)
      (do
        let ref ← RunM.onWorld (WorldM.newIter it)
        if ← RunM.located pos (k.hasNext ref) then return some ref else return none) := by
    intro it
    refine .bind_same (Inv.steady.onWorld _) fun ref => ?_
    refine .bind_same (Inv.steady.located pos _) fun more => ?_
    cases more with
    | true => exact .pure fun _ _ hpre => ⟨rfl, hpre⟩
    | false => exact .pure fun _ _ hpre => ⟨rfl, hpre⟩
  cases it with
  | none => exact .pure fun _ _ hpre => ⟨rfl, hpre⟩
  | some it =>
      cases filter with
      | none => exact hopen it
      | some test =>
          simp only [Expr.codeOption, Stencil.Expr.foldOption, Stencil.Expr.pos_fold,
            Expr.pos_code, pure_bind]
          refine .bind_same (evalExpr_follows hfilter) fun method => ?_
          exact hopen (it.filter (.script method test.pos))

end Evaluate

section Jumps

variable {l : Loop} {item : String} {itemSlot : Nat} {target : Option String} {number : Nat}

theorem Terms.means_of_jumps {target : Option (String × Nat)} (h : T.Jumps Γ target) :
    T.Means Γ (target.map Prod.fst) ((target.map Prod.snd).getD (T.indexer Γ)) := by
  cases target with
  | none =>
      cases hloops : Γ.loops with
      | nil => exact absurd hloops h
      | cons l rest => simp [Terms.Means, Terms.indexer, hloops]
  | some target => exact h

-- A loop catches by number what it is meant to catch by label: only its own label has its number,
-- and no label has the number of loops that have none.
theorem Terms.isTarget_iff
    (h : T.Means (.loopHead l.label l.iterSlot item itemSlot :: Γ) target number) :
    isTarget l.label target = true ↔ number = T.labelNumber l.label := by
  cases target with
  | none =>
      rw [Terms.Means, Context.loops_cons] at h
      simp only [isTarget, Option.isNone_none, Bool.true_or, true_iff]
      exact (Option.some.inj h).symm
  | some label =>
      obtain ⟨rfl, -⟩ := h
      simp only [isTarget, Option.isNone_some, Bool.false_or, decide_eq_true_eq]
      cases hlabel : l.label with
      | none => simpa [Terms.labelNumber] using Nat.ne_of_gt (T.positive label)
      | some label' => simp [Terms.labelNumber, T.injective.eq_iff]

-- What it does not catch means a loop around it.
theorem Terms.means_outside
    (h : T.Means (.loopHead l.label l.iterSlot item itemSlot :: Γ) target number)
    (hother : ¬isTarget l.label target = true) : T.Means Γ target number := by
  cases target with
  | none => exact absurd rfl hother
  | some label =>
      obtain ⟨rfl, l', hl', hlabel⟩ := h
      refine ⟨rfl, l', ?_, hlabel⟩
      rw [Context.loops_cons] at hl'
      rcases List.mem_cons.mp hl' with rfl | hl'
      · simp only [isTarget, Option.isNone_some, Bool.false_or, decide_eq_true_eq] at hother
        exact absurd hlabel.symm hother
      · exact hl'

end Jumps

-- Control has left a statement, and the runs are back in the context.
def Leaves (T : Terms) (Γ : Context) (iters : List (Option Nat)) (exit : Exit) (flow : Flow)
    (s : State) (a : Activation) : Prop :=
  Matches T Γ exit flow ∧ Inv T Γ iters s a

-- Control has left a list of statements, some of which may have declared names.
def Stops (T : Terms) (r : Region) (Γ : Context) (iters : List (Option Nat)) (exit : Exit)
    (flow : Flow) (s : State) (a : Activation) : Prop :=
  Matches T (r :: Γ) exit flow ∧ ∃ names, Inv T (⟨names, r.loop⟩ :: Γ) iters s a

theorem inScope_follows {body : NameM Exit} {act : RunM Flow}
    (h : Follows (Inv T (.block :: Γ) (none :: iters)) (Stops T .block Γ (none :: iters)) body
      act) :
    Follows (Inv T Γ iters) (Leaves T Γ iters) (NameM.inScope .empty body) act := by
  intro s a hpre
  have hend := h (s.setNames (s.names.push .empty)) a hpre.push
  refine hend.leave (f := fun s' => s'.setNames s'.names.pop) (g := id) ?_ ?_
  · rintro exit flow s' a' ⟨hmatches, names, hinv⟩
    have hloops : Γ.loops = Context.loops (.block :: Γ) := rfl
    exact ⟨hmatches.of_loops hloops, hinv.pop_block rfl⟩
  · exact fun _ _ hworld => hworld

section Loops

variable {k : Linkage} {l : Loop} {ref : Nat} {item : String} {itemSlot : Nat}
  {body : NameM Exit} {act : RunM Flow}

-- One round: the item is bound in a scope of its own, or put into its slot.
theorem round_follows (hitem : T.Fresh Γ itemSlot) (hne : l.iterSlot ≠ itemSlot)
    (hbody : Follows (Inv T (.loopHead l.label l.iterSlot item itemSlot :: Γ) (some ref :: iters))
      (Leaves T (.loopHead l.label l.iterSlot item itemSlot :: Γ) (some ref :: iters)) body act)
    (v : Value) :
    Follows (LoopInv T Γ iters l ref)
      (fun exit flow s a => Matches T (.loopHead l.label l.iterSlot item itemSlot :: Γ) exit flow ∧
        LoopInv T Γ iters l ref s a)
      (NameM.inScope ⟨[(item, v)], some ref⟩ body) (RunM.setSlot itemSlot v >>= fun _ => act) := by
  intro s a hpre
  have hend := hbody _ _ (hpre.bind (v := v) hitem hne)
  refine hend.leave (f := fun s' => s'.setNames s'.names.pop) (g := id) ?_ ?_
  · exact fun exit flow s' a' hleft => ⟨hleft.1, LoopInv.unbind hleft.2⟩
  · exact fun _ _ hworld => hworld

-- The fuel counts the rounds.
theorem rounds_follows (hitem : T.Fresh Γ itemSlot) (hne : l.iterSlot ≠ itemSlot)
    (hbody : Follows (Inv T (.loopHead l.label l.iterSlot item itemSlot :: Γ) (some ref :: iters))
      (Leaves T (.loopHead l.label l.iterSlot item itemSlot :: Γ) (some ref :: iters)) body act)
    (pos : Position) (fuel : Nat) :
    Follows (LoopInv T Γ iters l ref)
      (fun exit flow s a => Matches T Γ exit flow ∧ LoopInv T Γ iters l ref s a)
      (rounds k l.label item pos ref body fuel)
      (Run.runLoop k (T.labelNumber l.label) itemSlot pos ref act fuel) := by
  induction fuel with
  | zero => exact .throw LoopInv.steady.world _
  | succ fuel ih =>
      have hgoOn : Follows (LoopInv T Γ iters l ref)
          (fun exit flow s a => Matches T Γ exit flow ∧ LoopInv T Γ iters l ref s a)
          (do
            if ← NameM.located pos (k.hasNext ref) then rounds k l.label item pos ref body fuel
            else return .normal)
          (do
            if ← RunM.located pos (k.hasNext ref) then
              Run.runLoop k (T.labelNumber l.label) itemSlot pos ref act fuel
            else return .normal) := by
        refine .bind_same (LoopInv.steady.located pos _) fun more => ?_
        cases more with
        | true => exact ih
        | false => exact .pure fun _ _ hpre => ⟨.normal, hpre⟩
      rw [rounds, Run.runLoop]
      refine .bind_same (LoopInv.steady.located pos _) fun v => ?_
      rw [← bind_assoc]
      refine .bind (round_follows hitem hne hbody v) fun exit flow s a hround => ?_
      obtain ⟨hmatches, hinv⟩ := hround
      cases hmatches with
      | normal => exact hgoOn s a hinv
      | ret v => exact .ok ⟨.ret v, hinv⟩
      | @brk target number means =>
          by_cases htarget : isTarget l.label target = true
          · simp only [htarget, if_true, if_pos ((Terms.isTarget_iff means).mp htarget)]
            exact .ok ⟨.normal, hinv⟩
          · simp only [htarget, if_neg (mt (Terms.isTarget_iff means).mpr htarget)]
            exact .ok ⟨.brk (Terms.means_outside means htarget), hinv⟩
      | @cont target number means =>
          by_cases htarget : isTarget l.label target = true
          · simp only [htarget, if_true, if_pos ((Terms.isTarget_iff means).mp htarget)]
            exact hgoOn s a hinv
          · simp only [htarget, if_neg (mt (Terms.isTarget_iff means).mpr htarget)]
            exact .ok ⟨.cont (Terms.means_outside means htarget), hinv⟩

-- The whole loop, inside which its number is in force.
theorem loop_follows (hiter : T.Fresh Γ l.iterSlot) (hitem : T.Fresh Γ itemSlot)
    (hne : l.iterSlot ≠ itemSlot)
    (hbody : Follows (Inv T (.loopHead l.label l.iterSlot item itemSlot :: Γ) (some ref :: iters))
      (Leaves T (.loopHead l.label l.iterSlot item itemSlot :: Γ) (some ref :: iters)) body act)
    (pos : Position) (fuel : Nat) :
    Follows (Inv T Γ iters) (Leaves T Γ iters) (rounds k l.label item pos ref body fuel)
      (RunM.insideLoop (T.labelNumber l.label) do
        RunM.setSlot l.iterSlot (.iter ref)
        Run.runLoop k (T.labelNumber l.label) itemSlot pos ref act fuel) := by
  intro s a hpre
  have hend := rounds_follows (k := k) hitem hne hbody pos fuel s _
    (LoopInv.enter ref hpre hiter)
  refine hend.leave (f := id)
    (g := fun a' => { a' with frame := { a'.frame with indexer := a.frame.indexer } }) ?_ ?_
  · intro exit flow s' a' hleft
    rw [hpre.indexer]
    exact ⟨hleft.1, hleft.2.leave⟩
  · exact fun _ _ hworld => hworld

end Loops

-- A list with one statement is that statement.
theorem execBlock_singleton (k : Linkage) (fuel : Nat) (s : Stencil.Stmt) :
    Run.execBlock k fuel [s] = Run.execStmt k fuel s := by
  rw [Run.execBlock]
  conv => rhs; rw [← bind_pure (Run.execStmt k fuel s)]
  refine congrArg (Run.execStmt k fuel s >>= ·) (funext fun flow => ?_)
  cases flow with
  | normal => rw [Run.execBlock]
  | _ => rfl

theorem execStmt_forIn {σ : Type} (code : Function σ → FunctionDecl) (k : Linkage) (fuel : Nat)
    (label : Option String) (number : σ) (item : String) (iterSlot itemSlot : σ)
    (collection : Expr σ) (filter : Option (Expr σ)) (body : List (Stmt σ))
    (otherwise : Option (List (Stmt σ))) (pos : Position) :
    execStmt code k fuel
        (.forIn label number item iterSlot itemSlot collection filter body otherwise pos) = (do
      match ← openLoop code k collection filter pos with
      | some ref =>
        rounds k label item pos ref (NameM.inScope .empty (execAll code k fuel body)) fuel
      | none =>
        (otherwise.map fun stmts => NameM.inScope .empty (execAll code k fuel stmts)).getD
          (return .normal)) := by
  cases otherwise <;> rw [execStmt] <;> rfl

mutual

theorem execStmt_follows {k : Linkage} {fuel : Nat} {Γ : Context} {iters : List (Option Nat)}
    {s : Stmt Nat} (h : s.Scoped T Γ) :
    Follows (Inv T Γ iters)
      (fun exit flow s' a => Matches T Γ exit flow ∧ Inv T (s.after Γ) iters s' a)
      (execStmt Function.decl k fuel s) (Run.execStmt k fuel s.code.fold) := by
  cases s with
  | text text pos =>
      rw [Stmt.code, Stencil.Stmt.fold, Run.execStmt, execStmt]
      exact .bind_same (Inv.steady.located pos _) fun _ => .pure fun _ _ hpre => ⟨.normal, hpre⟩
  | placeholder expr pos =>
      rw [Stmt.code, Stencil.Stmt.fold, Run.execStmt, execStmt]
      refine .bind_same (evalExpr_follows h) fun v => ?_
      exact .bind_same (Inv.steady.located pos _) fun _ => .pure fun _ _ hpre => ⟨.normal, hpre⟩
  | expr expr =>
      rw [Stmt.code, Stencil.Stmt.fold, Run.execStmt, execStmt]
      exact .bind_same (evalExpr_follows h) fun _ => .pure fun _ _ hpre => ⟨.normal, hpre⟩
  | declare name slot value pos =>
      rw [Stmt.code, Stencil.Stmt.fold, Run.execStmt]
      cases value with
      | none =>
          rw [execStmt]
          exact .bind_same (declare_follows h.2 _) fun _ => .pure fun _ _ hpre => ⟨.normal, hpre⟩
      | some value =>
          rw [execStmt]
          refine .bind_same (evalExpr_follows h.1) fun v => ?_
          exact .bind_same (declare_follows h.2 _) fun _ => .pure fun _ _ hpre => ⟨.normal, hpre⟩
  | assign name slot value pos =>
      rw [Stmt.code, Stencil.Stmt.fold, Run.execStmt, execStmt]
      refine .bind_same (evalExpr_follows h.1) fun v => ?_
      exact .bind_same (assign_follows h.2 v pos) fun _ => .pure fun _ _ hpre => ⟨.normal, hpre⟩
  | setProperty target key value pos =>
      rw [Stmt.code, Stencil.Stmt.fold, Run.execStmt, execStmt]
      refine .bind_same (evalExpr_follows h.1) fun t => ?_
      refine .bind_same (evalExpr_follows h.2) fun v => ?_
      exact .bind_same (Inv.steady.assignProperty t _ v pos) fun _ =>
        .pure fun _ _ hpre => ⟨.normal, hpre⟩
  | setIndex target key value pos =>
      rw [Stmt.code, Stencil.Stmt.fold, Run.execStmt, execStmt]
      refine .bind_same (evalExpr_follows h.1) fun t => ?_
      refine .bind_same (evalExpr_follows h.2.1) fun u => ?_
      refine .bind_same (evalExpr_follows h.2.2) fun v => ?_
      exact .bind_same (Inv.steady.assignProperty t u v pos) fun _ =>
        .pure fun _ _ hpre => ⟨.normal, hpre⟩
  | block body =>
      rw [Stmt.code, Stencil.Stmt.fold, Run.execStmt, execStmt]
      exact inScope_follows (execAll_follows h)
  | ifThen test yes pos =>
      rw [Stmt.code, Stencil.Stmt.fold, Run.execStmt_branch, Run.execStmt, execStmt]
      refine .bind_same (evalExpr_follows h.1) fun v => ?_
      refine .bind_same (Inv.steady.isTruthy v) fun p => ?_
      cases p with
      | true => exact inScope_follows (execAll_follows h.2)
      | false => exact .pure fun _ _ hpre => ⟨.normal, hpre⟩
  | ifThenElse test yes no pos =>
      rw [Stmt.code, Stencil.Stmt.fold, Run.execStmt_branch, Run.execStmt, execStmt]
      refine .bind_same (evalExpr_follows h.1) fun v => ?_
      refine .bind_same (Inv.steady.isTruthy v) fun p => ?_
      cases p with
      | true => exact inScope_follows (execAll_follows h.2.1)
      | false => exact inScope_follows (execAll_follows h.2.2)
  | ifThenElseIf test yes next pos =>
      obtain ⟨htest, hyes, hnext, hafter⟩ := h
      rw [Stmt.code, Stencil.Stmt.fold, Run.execStmt_branch, Run.execStmt, execStmt]
      refine .bind_same (evalExpr_follows htest) fun v => ?_
      refine .bind_same (Inv.steady.isTruthy v) fun p => ?_
      cases p with
      | true => exact inScope_follows (execAll_follows hyes)
      | false =>
          simp only [Stencil.Stmt.foldAll, execBlock_singleton]
          refine .mono (execStmt_follows hnext) fun exit flow s a hleft => ?_
          rwa [hafter] at hleft
  | forIn label number item iterSlot itemSlot collection filter body otherwise pos =>
      obtain ⟨hcollection, hfilter, rfl, hiter, hitem, hne, hbody, hotherwise⟩ := h
      rw [Stmt.code, Stencil.Stmt.fold, Run.execStmt_forIn, execStmt_forIn]
      refine .bind_same (openLoop_follows hcollection hfilter pos) fun ref => ?_
      cases ref with
      | some ref =>
          exact loop_follows (l := ⟨label, iterSlot⟩) hiter hitem hne
            (inScope_follows (execAll_follows hbody)) pos fuel
      | none =>
          cases otherwise with
          | none => exact .pure fun _ _ hpre => ⟨.normal, hpre⟩
          | some stmts => exact inScope_follows (execAll_follows hotherwise)
  | ret value pos =>
      cases value with
      | none => exact .pure fun _ _ hpre => ⟨.ret _, hpre⟩
      | some value =>
          rw [Stmt.code, Expr.codeOption, Stencil.Stmt.fold, Stencil.Expr.foldOption, Run.execStmt,
            execStmt]
          exact .bind_same (evalExpr_follows h) fun v => .pure fun _ _ hpre => ⟨.ret v, hpre⟩
  | brk label pos =>
      intro s a hpre
      refine .ok ⟨.brk ?_, hpre⟩
      have hmeans := Terms.means_of_jumps h
      rwa [← hpre.indexer] at hmeans
  | cont label pos =>
      intro s a hpre
      refine .ok ⟨.cont ?_, hpre⟩
      have hmeans := Terms.means_of_jumps h
      rwa [← hpre.indexer] at hmeans

theorem execAll_follows {k : Linkage} {fuel : Nat} {r : Region} {Γ : Context}
    {iters : List (Option Nat)} {ss : List (Stmt Nat)} (h : Stmt.AllScoped T (r :: Γ) ss) :
    Follows (Inv T (r :: Γ) iters) (Stops T r Γ iters) (execAll Function.decl k fuel ss)
      (Run.execBlock k fuel (Stencil.Stmt.foldAll (Stmt.codeAll ss))) := by
  cases ss with
  | nil => exact .pure fun _ _ hpre => ⟨.normal, r.names, hpre⟩
  | cons s rest =>
      rw [Stmt.codeAll, Stencil.Stmt.foldAll, Run.execBlock, execAll]
      obtain ⟨names, hafter⟩ := s.after_region r Γ
      refine .bind (execStmt_follows h.1) fun exit flow s' a hleft => ?_
      obtain ⟨hmatches, hinv⟩ := hleft
      rw [hafter] at hinv
      cases hmatches with
      | normal =>
          have hrest := h.2
          rw [hafter] at hrest
          refine Follows.mono (execAll_follows hrest) ?_ s' a hinv
          intro exit flow s a hstops
          refine ⟨hstops.1.of_loops ?_, hstops.2⟩
          rw [Context.loops_cons, Context.loops_cons]
      | brk means => exact .ok ⟨.brk means, names, hinv⟩
      | cont means => exact .ok ⟨.cont means, names, hinv⟩
      | ret v => exact .ok ⟨.ret v, names, hinv⟩

end

end Stencil.Named
