import Mathlib.Logic.Function.Basic
import Stencil.Proofs.Named.Tree
import Stencil.Run.Render

namespace Stencil.Named

-- What a scope binds, the last variable first. The head of a loop also has its iterator's cell.
structure Bindings where
  vars : List (String × Value)
  iter : Option Nat

namespace Bindings

def empty : Bindings := ⟨[], none⟩

-- Missing arguments are `null` and further ones are ignored.
def ofArgs (params : List String) (args : List Value) : Bindings :=
  ⟨(params.zipIdx.map fun (name, i) => (name, args.getD i .null)).reverse, none⟩

end Bindings

-- The scopes in sight, the innermost first. Names that no scope binds are global where there are
-- globals, and bound to nothing elsewhere.
structure Names where
  scopes : List Bindings
  globals : Option (String → Value)

namespace Names

def lookup (N : Names) (name : String) : Option Value :=
  (N.scopes.findSome? fun b => b.vars.lookup name).or (N.globals.map fun g => g name)

-- The iterator of the innermost loop.
def iter? (N : Names) : Option Nat := N.scopes.findSome? Bindings.iter

def push (N : Names) (b : Bindings) : Names := { N with scopes := b :: N.scopes }

def pop (N : Names) : Names := { N with scopes := N.scopes.tail }

def declare (N : Names) (name : String) (v : Value) : Names :=
  match N.scopes with
  | [] => N
  | b :: rest => { N with scopes := { b with vars := (name, v) :: b.vars } :: rest }

def rebind (name : String) (v : Value) : List (String × Value) → List (String × Value)
  | [] => []
  | b :: rest => if b.1 = name then (name, v) :: rest else b :: rebind name v rest

-- Changes the innermost scope that binds the name.
def assignScopes (name : String) (v : Value) : List Bindings → Option (List Bindings)
  | [] => none
  | b :: rest =>
    match b.vars.lookup name with
    | some _ => some ({ b with vars := rebind name v b.vars } :: rest)
    | none => (assignScopes name v rest).map (b :: ·)

def assign? (N : Names) (name : String) (v : Value) : Option Names :=
  match assignScopes name v N.scopes with
  | some scopes => some { N with scopes }
  | none => N.globals.map fun g => { N with globals := some (Function.update g name v) }

end Names

structure State where
  names : Names
  origin : Nat
  world : World

-- Steps of a run that knows variables by their names.
abbrev NameM := ExceptT (Halt RuntimeError) (StateM State)

namespace NameM

def exhausted : NameM α := throw .outOfFuel

def fail (pos : Position) (fault : Fault) : NameM α := throw (.raised (fault.located pos))

def onWorld (act : WorldM RuntimeError α) : NameM α := fun s =>
  let (result, world) := act s.world
  (result, { s with world })

def located (pos : Position) (act : WorldM Fault α) : NameM α :=
  onWorld (act.mapError (Fault.located pos))

def ofExcept (pos : Position) : Except Fault α → NameM α
  | .ok a => pure a
  | .error fault => fail pos fault

def heap : NameM Heap := return (← get).world.heap

def unbound (name : String) (pos : Position) : NameM α := fail pos (.noSuchProperty "scope" name)

def lookup (name : String) (pos : Position) : NameM Value := do
  match (← get).names.lookup name with
  | some v => return v
  | none => unbound name pos

def iter (pos : Position) : NameM Value := do
  match (← get).names.iter? with
  | some ref => return .iter ref
  | none => unbound "for.iter" pos

def declare (name : String) (v : Value) : NameM Unit :=
  modify fun s => { s with names := s.names.declare name v }

def assign (name : String) (v : Value) (pos : Position) : NameM Unit := do
  let s ← get
  match s.names.assign? name v with
  | some names => set { s with names }
  | none => unbound name pos

-- Runs a step in a scope of its own, which is gone however the step ends.
def inScope (b : Bindings) (act : NameM α) : NameM α := fun s =>
  let (result, s') := act { s with names := s.names.push b }
  (result, { s' with names := s'.names.pop })

def isTruthy (v : Value) : NameM Bool := return v.isTruthy (← heap)

def assignProperty (target key value : Value) (pos : Position) : NameM Unit := do
  if ← located pos (Run.setProperty target key value) then return ()
  else
    let heap ← heap
    fail pos (.propertyNotWritable (target.typeName heap) (key.display heap))

end NameM

-- How control leaves a statement. Jumps have the label that is written, if there is one.
inductive Exit where
  | normal
  | brk (label : Option String)
  | cont (label : Option String)
  | ret (v : Value)

-- A loop is meant by jumps without a label inside it, unless another loop is around them, and by
-- those with its own label.
def isTarget (label target : Option String) : Bool := target.isNone || target = label

section

variable {σ : Type} (code : Function σ → FunctionDecl)

-- Functions are values, and the values of both ways to run a template are the same. So a function
-- is known by its code, into which nothing here looks.
mutual

def evalExpr (k : Linkage) : Expr σ → NameM Value
  | .direct value _ => return .ofLiteral value
  | .var name _ pos => NameM.lookup name pos
  | .iter _ pos => NameM.iter pos
  | .binary op left right pos => do
    let a ← evalExpr k left
    let b ← evalExpr k right
    NameM.ofExcept pos (Value.binary (← NameM.heap) op a b)
  | .unary op operand pos => do
    let a ← evalExpr k operand
    NameM.ofExcept pos (Value.unary (← NameM.heap) op a)
  | .and left right _ => do
    if ← NameM.isTruthy (← evalExpr k left) then
      return .bool (← NameM.isTruthy (← evalExpr k right))
    else return .bool false
  | .or left right _ => do
    if ← NameM.isTruthy (← evalExpr k left) then return .bool true
    else return .bool (← NameM.isTruthy (← evalExpr k right))
  | .property target key pos => do
    let target ← evalExpr k target
    NameM.located pos (Run.getProperty k target (.str key))
  | .index target key pos => do
    let target ← evalExpr k target
    let key ← evalExpr k key
    NameM.located pos (Run.getProperty k target key)
  | .call callee args pos => do
    let callee ← evalExpr k callee
    let args ← evalExprs k args
    NameM.onWorld (k.call callee args pos)
  | .function params frameSize body pos => do
    return .function (← get).origin (code ⟨params, frameSize, body, pos⟩)
  | .list items _ => do
    let items ← evalExprs k items
    NameM.onWorld (WorldM.newList items)

def evalExprs (k : Linkage) : List (Expr σ) → NameM (List Value)
  | [] => return []
  | e :: rest => do
    let v ← evalExpr k e
    return v :: (← evalExprs k rest)

end

-- Every round has a scope for the item, and the body a scope inside it.
def rounds (k : Linkage) (label : Option String) (item : String) (pos : Position) (ref : Nat)
    (body : NameM Exit) : Nat → NameM Exit
  | 0 => NameM.exhausted
  | fuel + 1 => do
    let v ← NameM.located pos (k.next ref)
    let exit ← NameM.inScope ⟨[(item, v)], some ref⟩ body
    let goOn : NameM Exit := do
      if ← NameM.located pos (k.hasNext ref) then rounds k label item pos ref body fuel
      else return .normal
    match exit with
    | .normal => goOn
    | .cont target => if isTarget label target then goOn else return exit
    | .brk target => if isTarget label target then return .normal else return exit
    | .ret _ => return exit

def openLoop (k : Linkage) (collection : Expr σ) (filter : Option (Expr σ)) (pos : Position) :
    NameM (Option Nat) := do
  let collection ← evalExpr code k collection
  match ← NameM.ofExcept pos (Iterator.ofValue (← NameM.heap) collection) with
  | none => return none
  | some it =>
    let it ← match filter with
      | some test => do
        let method ← evalExpr code k test
        pure (it.filter (.script method test.pos))
      | none => pure it
    let ref ← NameM.onWorld (WorldM.newIter it)
    if ← NameM.located pos (k.hasNext ref) then return some ref else return none

mutual

def execStmt (k : Linkage) (fuel : Nat) : Stmt σ → NameM Exit
  | .text text pos => do
    NameM.located pos (Run.writeText text)
    return .normal
  | .placeholder expr pos => do
    let v ← evalExpr code k expr
    NameM.located pos (Run.writeValue v)
    return .normal
  | .expr expr => do
    let _ ← evalExpr code k expr
    return .normal
  | .declare name _ none _ => do
    NameM.declare name .null
    return .normal
  | .declare name _ (some value) _ => do
    NameM.declare name (← evalExpr code k value)
    return .normal
  | .assign name _ value pos => do
    NameM.assign name (← evalExpr code k value) pos
    return .normal
  | .setProperty target key value pos => do
    let target ← evalExpr code k target
    let value ← evalExpr code k value
    NameM.assignProperty target (.str key) value pos
    return .normal
  | .setIndex target key value pos => do
    let target ← evalExpr code k target
    let key ← evalExpr code k key
    let value ← evalExpr code k value
    NameM.assignProperty target key value pos
    return .normal
  | .block body => NameM.inScope .empty (execAll k fuel body)
  | .ifThen test yes _ => do
    if ← NameM.isTruthy (← evalExpr code k test) then NameM.inScope .empty (execAll k fuel yes)
    else return .normal
  | .ifThenElse test yes no _ => do
    if ← NameM.isTruthy (← evalExpr code k test) then NameM.inScope .empty (execAll k fuel yes)
    else NameM.inScope .empty (execAll k fuel no)
  | .ifThenElseIf test yes next _ => do
    if ← NameM.isTruthy (← evalExpr code k test) then NameM.inScope .empty (execAll k fuel yes)
    else execStmt k fuel next
  | .forIn label _ item _ _ collection filter body otherwise pos => do
    match ← openLoop code k collection filter pos with
    | some ref => rounds k label item pos ref (NameM.inScope .empty (execAll k fuel body)) fuel
    | none =>
      match otherwise with
      | some stmts => NameM.inScope .empty (execAll k fuel stmts)
      | none => return .normal
  | .ret (some value) _ => return .ret (← evalExpr code k value)
  | .ret none _ => return .ret .null
  | .brk label _ => return .brk (label.map Prod.fst)
  | .cont label _ => return .cont (label.map Prod.fst)

def execAll (k : Linkage) (fuel : Nat) : List (Stmt σ) → NameM Exit
  | [] => return .normal
  | s :: rest => do
    match ← execStmt k fuel s with
    | .normal => execAll k fuel rest
    | exit => return exit

end

-- Runs a list of statements from the given names.
def runFrom (k : Linkage) (fuel : Nat) (body : List (Stmt σ)) (origin : Nat) (names : Names) :
    WorldM RuntimeError Exit := fun w =>
  let (result, s) := execAll code k fuel body ⟨names, origin, w⟩
  (result, s.world)

variable (book : List (Function σ)) (natives : Run.Natives)

-- Calls a function. Those of the book run by names: a body sees its parameters and what it declares
-- itself. All others are not of this program.
open Classical in
noncomputable def invoke (k : Linkage) (fuel : Nat) (callee : Value) (args : List Value)
    (pos : Position) : WorldM RuntimeError Value :=
  match callee with
  | .function origin decl =>
    match book.find? fun f => code f = decl with
    | some f => do
      match ← runFrom code k fuel f.body origin
        ⟨[.empty, .ofArgs f.params args], none⟩ with
      | .ret v => return v
      | _ => return .null
    | none => Run.invoke natives k fuel callee args pos
  | _ => Run.invoke natives k fuel callee args pos

mutual

noncomputable def callAt : Nat → Value → List Value → Position → WorldM RuntimeError Value
  | 0, _, _, _ => WorldM.exhausted
  | fuel + 1, callee, args, pos =>
    invoke code book natives ⟨callAt fuel, hasNextAt fuel, nextAt fuel⟩ fuel callee args pos

noncomputable def hasNextAt : Nat → Nat → WorldM Fault Bool
  | 0, _ => WorldM.exhausted
  | fuel + 1, ref =>
    Iterator.hasNextIn (Run.ask natives ⟨callAt fuel, hasNextAt fuel, nextAt fuel⟩) fuel ref

noncomputable def nextAt : Nat → Nat → WorldM Fault Value
  | 0, _ => WorldM.exhausted
  | fuel + 1, ref =>
    Iterator.nextIn (Run.ask natives ⟨callAt fuel, hasNextAt fuel, nextAt fuel⟩) fuel ref

end

noncomputable def linkage (fuel : Nat) : Linkage :=
  ⟨callAt code book natives fuel, hasNextAt code book natives fuel, nextAt code book natives fuel⟩

end

-- Where names that nobody declares are allowed they are global: the parameters have their values,
-- all others are `null`.
def globals (looseVar : Bool) (params : Params) : Option (String → Value) :=
  if looseVar then some fun name => (params.get? name).getD .null else none

-- Renders a program by names.
noncomputable def render {σ : Type} (code : Function σ → FunctionDecl) (looseVar : Bool)
    (natives : Run.Natives) (fuel origin : Nat) (root : List (Stmt σ)) (params : Params) :
    WorldM RuntimeError Unit := do
  let _ ← runFrom code (linkage code (Stmt.functionsAll root) natives fuel) fuel root origin
    ⟨[.empty], globals looseVar params⟩
  return ()

end Stencil.Named
