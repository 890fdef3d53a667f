import Stencil.Proofs.Run.Abreast

namespace Stencil

-- If the step gets to its end, the property holds of its result and of where it ends.
def After (act : ExceptT η (StateM σ) α) (P : α → σ → Prop) (s : σ) : Prop :=
  ∀ x s', act s = (.ok x, s') → P x s'

namespace After

variable {act : ExceptT η (StateM σ) α} {P : α → σ → Prop} {s s' : σ}

theorem of_ok {x : α} (h : act s = (.ok x, s')) (hP : P x s') : After act P s := by
  intro y t hy
  rw [h] at hy
  cases hy
  exact hP

theorem of_error {e : η} (h : act s = (.error e, s')) : After act P s := by
  intro y t hy
  rw [h] at hy
  cases hy

end After

namespace Run

-- What is asked of a run: a property of all values that placeholders show, in the run itself and in
-- the functions that it calls.
structure Watch where
  linkage : Linkage
  calls : Value → List Value → World → Prop
  shows : Value → Prop

namespace Watch

-- The calls that an expression makes keep to it. A filter shows nothing, so what iterators ask does
-- not count.
mutual

def expr (o : Watch) : Expr → Activation → Prop
  | .direct _ _, _ => True
  | .var _ _, _ => True
  | .binary _ left right _, a =>
    o.expr left a ∧ After (evalExpr o.linkage left) (fun _ b => o.expr right b) a
  | .unary _ operand _, a => o.expr operand a
  | .and left right _, a =>
    o.expr left a ∧ After (evalExpr o.linkage left)
      (fun v b => v.isTruthy b.world.heap = true → o.expr right b) a
  | .or left right _, a =>
    o.expr left a ∧ After (evalExpr o.linkage left)
      (fun v b => v.isTruthy b.world.heap = false → o.expr right b) a
  | .property target _ _, a => o.expr target a
  | .index target key _, a =>
    o.expr target a ∧ After (evalExpr o.linkage target) (fun _ b => o.expr key b) a
  | .call callee args _, a =>
    o.expr callee a ∧ After (evalExpr o.linkage callee)
      (fun f b => o.exprs args b ∧
        After (evalExprs o.linkage args) (fun vs c => o.calls f vs c.world) b) a
  | .function _ _ _ _, _ => True
  | .list items _, a => o.exprs items a

def exprs (o : Watch) : List Expr → Activation → Prop
  | [], _ => True
  | e :: rest, a => o.expr e a ∧ After (evalExpr o.linkage e) (fun _ b => o.exprs rest b) a

end

-- The filter of a loop is evaluated only if there is something to go through.
def head (o : Watch) (collection : Expr) (filter : Option Expr) (a : Activation) : Prop :=
  o.expr collection a ∧ After (evalExpr o.linkage collection)
    (fun v b => ∀ it, Iterator.ofValue b.world.heap v = .ok (some it) →
      ∀ test, filter = some test → o.expr test b) a

-- Every round of a loop keeps to it if its body does.
def rounds (o : Watch) (label itemSlot : Nat) (pos : Position) (ref : Nat) (body : RunM Flow)
    (keeps : Activation → Prop) : Nat → Activation → Prop
  | 0, _ => True
  | fuel + 1, a =>
    After (RunM.located pos (o.linkage.next ref)) (fun item b =>
      After (RunM.setSlot itemSlot item) (fun _ c =>
        keeps c ∧ After body (fun flow d =>
          flow = .normal ∨ flow = .cont label →
            After (RunM.located pos (o.linkage.hasNext ref)) (fun more e =>
              more = true → o.rounds label itemSlot pos ref body keeps fuel e) d) c) b) a

-- All that the statements show has the property, and so has what is shown by the functions that
-- they call.
mutual

def stmt (o : Watch) (fuel : Nat) : Stmt → Activation → Prop
  | .text _ _, _ => True
  | .placeholder e _, a => o.expr e a ∧ After (evalExpr o.linkage e) (fun v _ => o.shows v) a
  | .expr e, a => o.expr e a
  | .assign _ value _, a => o.expr value a
  | .setProperty target _ value _, a =>
    o.expr target a ∧ After (evalExpr o.linkage target) (fun _ b => o.expr value b) a
  | .setIndex target key value _, a =>
    o.expr target a ∧ After (evalExpr o.linkage target) (fun _ b =>
      o.expr key b ∧ After (evalExpr o.linkage key) (fun _ c => o.expr value c) b) a
  | .block body, a => o.block fuel body a
  | .cond test yes no _, a =>
    o.expr test a ∧ After (evalExpr o.linkage test) (fun v b =>
      if v.isTruthy b.world.heap then o.block fuel yes b else o.block fuel no b) a
  | .forIn label iterSlot itemSlot collection filter body otherwise pos, a =>
    o.head collection filter a ∧ After (openLoop o.linkage collection filter pos) (fun ref b =>
      match ref with
      | some ref =>
        After (RunM.setSlot iterSlot (.iter ref)) (fun _ c =>
          o.rounds label itemSlot pos ref (execBlock o.linkage fuel body)
            (fun d => o.block fuel body d) fuel c)
          { b with frame := { b.frame with indexer := label } }
      | none =>
        match otherwise with
        | some stmts => o.block fuel stmts b
        | none => True) a
  | .ret (some value) _, a => o.expr value a
  | .ret none _, _ => True
  | .brk _ _, _ => True
  | .cont _ _, _ => True

def block (o : Watch) (fuel : Nat) : List Stmt → Activation → Prop
  | [], _ => True
  | s :: rest, a =>
    o.stmt fuel s a ∧ After (execStmt o.linkage fuel s)
      (fun flow b => flow = .normal → o.block fuel rest b) a

end

-- What runs once the loop is opened.
def opened (o : Watch) (fuel label iterSlot itemSlot : Nat) (body : List Stmt)
    (otherwise : Option (List Stmt)) (pos : Position) (found : Option Nat) (a : Activation) :
    Prop :=
  match found with
  | some ref =>
    After (RunM.setSlot iterSlot (.iter ref)) (fun _ b =>
      o.rounds label itemSlot pos ref (execBlock o.linkage fuel body) (o.block fuel body) fuel b)
      { a with frame := { a.frame with indexer := label } }
  | none => ∀ stmts, otherwise = some stmts → o.block fuel stmts a

theorem stmt_forIn {o : Watch} {fuel label iterSlot itemSlot : Nat} {collection : Expr}
    {filter : Option Expr} {body : List Stmt} {otherwise : Option (List Stmt)} {pos : Position}
    {a : Activation}
    (h : o.stmt fuel (.forIn label iterSlot itemSlot collection filter body otherwise pos) a) :
    o.head collection filter a ∧ After (openLoop o.linkage collection filter pos)
      (o.opened fuel label iterSlot itemSlot body otherwise pos) a := by
  cases otherwise with
  | none =>
      rw [stmt] at h
      refine ⟨h.1, ?_⟩
      intro found b hb
      have hopened := h.2 found b hb
      cases found with
      | some ref => exact hopened
      | none =>
          intro stmts hstmts
          cases hstmts
  | some stmts =>
      rw [stmt] at h
      refine ⟨h.1, ?_⟩
      intro found b hb
      have hopened := h.2 found b hb
      cases found with
      | some ref => exact hopened
      | none =>
          intro other hother
          cases hother
          exact hopened

end Watch

-- All that a call shows has the property. Functions of the host show nothing.
def callShows (natives : Natives) (shows : Value → Prop) :
    Nat → Value → List Value → World → Prop
  | fuel + 1, .function origin decl, args, w =>
    Watch.block ⟨linkage natives fuel, callShows natives shows fuel, shows⟩ fuel decl.body
      ⟨.ofArgs origin decl.frameSize decl.arity args, w⟩
  | _, _, _, _ => True

-- The watch over a run of code at some depth.
def watch (natives : Natives) (shows : Value → Prop) (fuel : Nat) : Watch :=
  ⟨linkage natives fuel, callShows natives shows fuel, shows⟩

end Run

end Stencil
