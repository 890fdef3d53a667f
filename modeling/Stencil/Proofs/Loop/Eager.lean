import Stencil.Proofs.Alike.Call
import Stencil.Proofs.Loop.Pull
import Stencil.Proofs.Run.Follow

namespace Stencil

open Resolve

-- The parts of a loop.
structure Loop where
  label : Nat
  iterSlot : Nat
  itemSlot : Nat
  collection : Expr
  filter : Option Expr
  body : List Stmt
  otherwise : Option (List Stmt)
  pos : Position

-- Counting stops at the largest integer.
def Loop.counted (index : Nat) : Nat := min index Int64.maxValue.toInt.toNat

-- What is said of a loop while the body runs for the item of the index, of so many.
def Resolve.LoopStatus.during (index count : Nat) : LoopStatus → Literal
  | .index => .int (Int64.ofNat (Loop.counted index))
  | .hasNext => .bool (index + 1 < count)
  | .isFirst => .bool (index = 0)
  | .isLast => .bool (index + 1 = count)
  | .isOdd => .bool (Loop.counted index % 2 = 0)
  | .isEven => .bool (Loop.counted index % 2 = 1)

namespace Loop

def stmt (l : Loop) : Stmt :=
  .forIn l.label l.iterSlot l.itemSlot l.collection l.filter l.body l.otherwise l.pos

def known (l : Loop) (index count : Nat) : KnownStatus := fun slot =>
  if slot = l.iterSlot then some (LoopStatus.during index count) else none

-- The body reads the status of the iterator and does nothing else with it: once the status is known
-- there is no mention of it.
def ReadsStatusOnly (l : Loop) : Prop :=
  ∀ index count, l.iterSlot ∉ Stmt.slotsAll (Stmt.knowingAll (l.known index count) l.body)

-- What runs when there are no items.
def finish (l : Loop) (k : Linkage) (fuel : Nat) : RunM Flow :=
  (l.otherwise.map (Run.execBlock k fuel)).getD (return .normal)

-- The items that the loop is about: all elements that are there now and that are kept. The value of
-- the filter is not needed, but it is evaluated, unless there is nothing to go through.
def items (l : Loop) (k : Linkage) (keeps : Value → Bool) : RunM (List Value) := do
  let v ← Run.evalExpr k l.collection
  let elements := v.elements (← RunM.heap)
  match l.filter with
  | none => return elements
  | some test =>
    if v.isNull then return []
    else
      let _ ← Run.evalExpr k test
      return elements.filter keeps

-- Runs the body for one item after the other. There is no iterator: the index is counted and so
-- the status is known.
def rounds (l : Loop) (k : Linkage) (fuel count : Nat) : Nat → List Value → RunM Flow
  | _, [] => return .normal
  | index, item :: later => do
    RunM.setSlot l.itemSlot item
    let flow ← Run.execBlock k fuel (Stmt.knowingAll (l.known index count) l.body)
    match flow with
    | .normal => l.rounds k fuel count (index + 1) later
    | .cont target =>
      if target = l.label then l.rounds k fuel count (index + 1) later else return flow
    | .brk target => if target = l.label then return .normal else return flow
    | .ret _ => return flow

-- What runs once the iterator is made.
def start (l : Loop) (k : Linkage) (fuel : Nat) (it : Iterator) : RunM Flow := do
  let ref ← RunM.onWorld (WorldM.newIter it)
  if ← RunM.located l.pos (k.hasNext ref) then
    RunM.insideLoop l.label do
      RunM.setSlot l.iterSlot (.iter ref)
      Run.runLoop k l.label l.itemSlot l.pos ref (Run.execBlock k fuel l.body) fuel
  else l.finish k fuel

end Loop

-- In the world the method answers for the item with that truth, and changes nothing that is there.
def Iterator.Steady (ask : Method → Value → WorldM Fault Value) (method : Method)
    (keeps : Value → Bool) (item : Value) (w : World) : Prop :=
  ∃ verdict w', ask method item w = (.ok verdict, w') ∧ verdict.isTruthy w'.heap = keeps item ∧
    ∀ c, w.heap.Allocated c → w'.heap.get? c = w.heap.get? c

-- The iterator in one cell gets its answers from elsewhere.
def Linkage.answering (k : Linkage) (ref : Nat) (ask : Method → Value → WorldM Fault Value)
    (steps : Nat) : Linkage where
  call := k.call
  hasNext other := if other = ref then Iterator.hasNextIn ask steps ref else k.hasNext other
  next other := if other = ref then Iterator.nextIn ask steps ref else k.next other

-- Whenever the method of the loop is called it is steady: whatever it would answer where it is not
-- makes no difference.
def Loop.AsksSteadily (l : Loop) (natives : Run.Natives) (depth fuel : Nat)
    (keeps : Value → Bool) (method : Method) (it : Iterator) (a : Activation) : Prop :=
  ∀ ask : Method → Value → WorldM Fault Value,
    (∀ item w, Iterator.Steady (Run.ask natives (Run.linkage natives depth)) method keeps item w →
      ask method item w = Run.ask natives (Run.linkage natives depth) method item w) →
    l.start ((Run.linkage natives (depth + 1)).answering a.world.heap.iters.size ask depth) fuel it
      a = l.start (Run.linkage natives (depth + 1)) fuel it a

namespace Loop

variable {l : Loop} {k : Linkage} {fuel : Nat} {a a₁ a₂ : Activation} {v : Value}

-- The head of the loop, and what it comes to.
section Head

theorem stmt_error {e : Halt RuntimeError} (hv : Run.evalExpr k l.collection a = (.error e, a₁)) :
    Run.execStmt k fuel l.stmt a = (.error e, a₁) := by
  rw [stmt, Run.execStmt_forIn, Run.openLoop, run_bind_error (run_bind_error hv)]

theorem stmt_null (hv : Run.evalExpr k l.collection a = (.ok .null, a₁)) :
    Run.execStmt k fuel l.stmt a = l.finish k fuel a₁ := by
  have hopen : Run.openLoop k l.collection l.filter l.pos a = (.ok none, a₁) := by
    rw [Run.openLoop, run_bind_ok hv]
    rfl
  rw [stmt, Run.execStmt_forIn, run_bind_ok hopen]
  rfl

-- Whether there are items is asked where the cell is made.
theorem start_eq (it : Iterator) :
    (do
      let ref ← RunM.onWorld (WorldM.newIter it)
      if ← RunM.located l.pos (k.hasNext ref) then return some ref else return none) >>=
        (fun
          | some ref =>
            RunM.insideLoop l.label do
              RunM.setSlot l.iterSlot (.iter ref)
              Run.runLoop k l.label l.itemSlot l.pos ref (Run.execBlock k fuel l.body) fuel
          | none => (l.otherwise.map (Run.execBlock k fuel)).getD (return .normal)) =
      l.start k fuel it := by
  rw [bind_assoc]
  refine bind_congr fun ref => ?_
  rw [bind_assoc]
  refine bind_congr fun more => ?_
  cases more <;> rfl

theorem stmt_plain {it : Iterator} (hv : Run.evalExpr k l.collection a = (.ok v, a₁))
    (hit : Iterator.ofValue a₁.world.heap v = .ok (some it)) (hfilter : l.filter = none) :
    Run.execStmt k fuel l.stmt a = l.start k fuel it a₁ := by
  have hopen : Run.openLoop k l.collection l.filter l.pos a =
      (do
        let ref ← RunM.onWorld (WorldM.newIter it)
        if ← RunM.located l.pos (k.hasNext ref) then return some ref else return none : RunM _)
        a₁ := by
    rw [Run.openLoop, run_bind_ok hv, hfilter]
    change (RunM.ofExcept l.pos (Iterator.ofValue a₁.world.heap v) >>= _) a₁ = _
    rw [hit]
    rfl
  rw [stmt, Run.execStmt_forIn, ← start_eq]
  exact run_bind_congr hopen

theorem stmt_filtered {it : Iterator} {test : Expr} {m : Value}
    (hv : Run.evalExpr k l.collection a = (.ok v, a₁))
    (hit : Iterator.ofValue a₁.world.heap v = .ok (some it)) (hfilter : l.filter = some test)
    (hm : Run.evalExpr k test a₁ = (.ok m, a₂)) :
    Run.execStmt k fuel l.stmt a = l.start k fuel (it.filter (.script m test.pos)) a₂ := by
  have hopen : Run.openLoop k l.collection l.filter l.pos a =
      (do
        let ref ← RunM.onWorld (WorldM.newIter (it.filter (.script m test.pos)))
        if ← RunM.located l.pos (k.hasNext ref) then return some ref else return none : RunM _)
        a₂ := by
    rw [Run.openLoop, run_bind_ok hv, hfilter]
    change (RunM.ofExcept l.pos (Iterator.ofValue a₁.world.heap v) >>= _) a₁ = _
    rw [hit]
    change (Run.evalExpr k test >>= _) a₁ = _
    exact run_bind_ok hm
  rw [stmt, Run.execStmt_forIn, ← start_eq]
  exact run_bind_congr hopen

theorem stmt_filter_error {it : Iterator} {test : Expr} {e : Halt RuntimeError}
    (hv : Run.evalExpr k l.collection a = (.ok v, a₁))
    (hit : Iterator.ofValue a₁.world.heap v = .ok (some it)) (hfilter : l.filter = some test)
    (hm : Run.evalExpr k test a₁ = (.error e, a₂)) :
    Run.execStmt k fuel l.stmt a = (.error e, a₂) := by
  have hopen : Run.openLoop k l.collection l.filter l.pos a = (.error e, a₂) := by
    rw [Run.openLoop, run_bind_ok hv, hfilter]
    change (RunM.ofExcept l.pos (Iterator.ofValue a₁.world.heap v) >>= _) a₁ = _
    rw [hit]
    change (Run.evalExpr k test >>= _) a₁ = _
    exact run_bind_error hm
  rw [stmt, Run.execStmt_forIn, run_bind_error hopen]

variable {keeps : Value → Bool}

theorem items_null (hv : Run.evalExpr k l.collection a = (.ok .null, a₁)) :
    l.items k keeps a = (.ok [], a₁) := by
  rw [items, run_bind_ok hv]
  cases l.filter <;> rfl

theorem items_plain (hv : Run.evalExpr k l.collection a = (.ok v, a₁)) (hfilter : l.filter = none) :
    l.items k keeps a = (.ok (v.elements a₁.world.heap), a₁) := by
  rw [items, run_bind_ok hv, hfilter]
  rfl

-- What the filter is made of comes after the elements are there.
theorem items_filtered (hv : Run.evalExpr k l.collection a = (.ok v, a₁)) {test : Expr}
    (hfilter : l.filter = some test) (hnull : v.isNull = false) :
    l.items k keeps a = (do
      let _ ← Run.evalExpr k test
      return (v.elements a₁.world.heap).filter keeps : RunM _) a₁ := by
  rw [items, run_bind_ok hv, hfilter]
  simp only [hnull]
  rfl

end Head

end Loop

end Stencil
