import Stencil.Run.Evaluate

namespace Stencil

-- How control leaves a statement. Jumps name the label of the loop they mean.
inductive Flow where
  | normal
  | brk (label : Nat)
  | cont (label : Nat)
  | ret (v : Value)

namespace Run

def writeText (text : String) : WorldM Fault Unit := WorldM.onSink (·.writeText text)

-- Writes the value of a placeholder. Byte sinks take what the strategy of its class makes of it,
-- all others its text.
def writeValue (v : Value) : WorldM Fault Unit := do
  let sink := (← get).sink
  if sink.isByteStream then
    match ← toBytes v sink.encoding.name with
    | some bytes => WorldM.onSink (·.writeBytes bytes)
    | none => return ()
  else if v.isNull then return ()
  else writeText (v.display (← WorldM.heap))

-- Writes a property that must be stored.
def assignProperty (target key value : Value) (pos : Position) : RunM Unit := do
  if ← RunM.located pos (setProperty target key value) then return ()
  else
    let heap ← RunM.heap
    RunM.fail pos (.propertyNotWritable (target.typeName heap) (key.display heap))

-- Goes through the items of the iterator in the cell, which has one more. The item is set before
-- every run of the body.
def runLoop (k : Linkage) (label itemSlot : Nat) (pos : Position) (ref : Nat) (body : RunM Flow) :
    Nat → RunM Flow
  | 0 => RunM.exhausted
  | fuel + 1 => do
    RunM.setSlot itemSlot (← RunM.located pos (k.next ref))
    let flow ← body
    let goOn : RunM Flow := do
      if ← RunM.located pos (k.hasNext ref) then runLoop k label itemSlot pos ref body fuel
      else return .normal
    match flow with
    | .normal => goOn
    | .cont target => if target = label then goOn else return flow
    | .brk target => if target = label then return .normal else return flow
    | .ret _ => return flow

-- The cell of a loop's iterator, or nothing when there are no items.
def openLoop (k : Linkage) (collection : Expr) (filter : Option Expr) (pos : Position) :
    RunM (Option Nat) := do
  let collection ← evalExpr k collection
  match ← RunM.ofExcept pos (Iterator.ofValue (← RunM.heap) collection) with
  | none => return none
  | some it =>
    let it ← match filter with
      | some test => do
        let method ← evalExpr k test
        pure (it.filter (.script method test.pos))
      | none => pure it
    let ref ← RunM.onWorld (WorldM.newIter it)
    if ← RunM.located pos (k.hasNext ref) then return some ref else return none

mutual

def execStmt (k : Linkage) (fuel : Nat) : Stmt → RunM Flow
  | .text text pos => do
    RunM.located pos (writeText text)
    return .normal
  | .placeholder expr pos => do
    let v ← evalExpr k expr
    RunM.located pos (writeValue v)
    return .normal
  | .expr expr => do
    let _ ← evalExpr k expr
    return .normal
  | .assign slot value _ => do
    RunM.setSlot slot (← evalExpr k value)
    return .normal
  | .setProperty target key value pos => do
    let target ← evalExpr k target
    let value ← evalExpr k value
    assignProperty target (.str key) value pos
    return .normal
  | .setIndex target key value pos => do
    let target ← evalExpr k target
    let key ← evalExpr k key
    let value ← evalExpr k value
    assignProperty target key value pos
    return .normal
  | .block body => execBlock k fuel body
  | .cond test yes no _ => do
    if ← isTruthy (← evalExpr k test) then execBlock k fuel yes else execBlock k fuel no
  | .forIn label iterSlot itemSlot collection filter body otherwise pos => do
    match ← openLoop k collection filter pos with
    | some ref =>
      RunM.insideLoop label do
        RunM.setSlot iterSlot (.iter ref)
        runLoop k label itemSlot pos ref (execBlock k fuel body) fuel
    | none =>
      match otherwise with
      | some stmts => execBlock k fuel stmts
      | none => return .normal
  | .ret (some value) _ => return .ret (← evalExpr k value)
  | .ret none _ => return .ret .null
  | .brk label _ => return .brk (label.getD (← get).frame.indexer)
  | .cont label _ => return .cont (label.getD (← get).frame.indexer)

def execBlock (k : Linkage) (fuel : Nat) : List Stmt → RunM Flow
  | [] => return .normal
  | s :: rest => do
    match ← execStmt k fuel s with
    | .normal => execBlock k fuel rest
    | flow => return flow

end

-- Runs a list of statements in a frame of its own.
def runBody (k : Linkage) (fuel : Nat) (body : List Stmt) (frame : Frame) :
    WorldM RuntimeError Flow := fun w =>
  let (result, a) := execBlock k fuel body ⟨frame, w⟩
  (result, a.world)

end Run

end Stencil
