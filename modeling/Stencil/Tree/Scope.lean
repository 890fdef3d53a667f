import Stencil.Source.ParseError

namespace Stencil

-- A loop that `break`, `continue` and `for.iter` can see.
structure LoopScope where
  label : Nat
  iterSlot : Nat
  deriving Repr, DecidableEq

abbrev Scope := List (String × Nat)

-- The names of one frame. The outermost scope is the one that a new frame starts with and that
-- closing a scope never takes away, so there is always a scope to declare a name in. The scopes
-- inside it and the loops have the innermost first. Slots are given out once and never again, so
-- their number is the size of the frame.
structure FrameScope where
  outermost : Scope
  inner : List Scope
  nextSlot : Nat
  loops : List LoopScope
  deriving Repr, DecidableEq

namespace FrameScope

def empty : FrameScope := ⟨[], [], 0, []⟩

-- The scopes from the innermost to the outermost.
def scopes (f : FrameScope) : List Scope := f.inner ++ [f.outermost]

def lookup (f : FrameScope) (name : String) : Option Nat :=
  f.scopes.findSome? fun scope => scope.lookup name

def innermost (f : FrameScope) : Scope := f.inner.headD f.outermost

def bind (f : FrameScope) (name : String) (slot : Nat) : FrameScope :=
  match f.inner with
  | [] => { f with outermost := (name, slot) :: f.outermost }
  | scope :: rest => { f with inner := ((name, slot) :: scope) :: rest }

-- A slot that no name refers to.
def allocate (f : FrameScope) : Nat × FrameScope :=
  (f.nextSlot, { f with nextSlot := f.nextSlot + 1 })

-- Gives a name a slot in the innermost scope, which must not have it yet.
def declare (f : FrameScope) (name : String) : Except ParseFault (Nat × FrameScope) :=
  if (f.innermost.lookup name).isSome then .error (.duplicateVariable name)
  else
    let (slot, f) := f.allocate
    .ok (slot, f.bind name slot)

-- Gives a name a slot in the outermost scope, unless it has one there.
def declareOutermost (f : FrameScope) (name : String) : Nat × FrameScope :=
  match f.outermost.lookup name with
  | some slot => (slot, f)
  | none =>
    let (slot, f) := f.allocate
    (slot, { f with outermost := (name, slot) :: f.outermost })

def pushScope (f : FrameScope) : FrameScope := { f with inner := [] :: f.inner }

def popScope (f : FrameScope) : FrameScope := { f with inner := f.inner.tail }

def pushLoop (f : FrameScope) (loop : LoopScope) : FrameScope := { f with loops := loop :: f.loops }

def popLoop (f : FrameScope) : FrameScope := { f with loops := f.loops.tail }

def hasLoop (f : FrameScope) (label : Nat) : Bool := f.loops.any (·.label = label)

end FrameScope

-- All open frames: that of the template and those of the functions around the current place, the
-- innermost first. No function sees the names of another frame.
structure Scopes where
  root : FrameScope
  functions : List FrameScope
  deriving Repr, DecidableEq

namespace Scopes

def empty : Scopes := ⟨.empty, []⟩

def frame (s : Scopes) : FrameScope := s.functions.headD s.root

def setFrame (s : Scopes) (f : FrameScope) : Scopes :=
  match s.functions with
  | [] => { s with root := f }
  | _ :: rest => { s with functions := f :: rest }

def modifyFrame (s : Scopes) (change : FrameScope → FrameScope) : Scopes :=
  s.setFrame (change s.frame)

def isRoot (s : Scopes) : Bool := s.functions.isEmpty

def lookup (s : Scopes) (name : String) : Option Nat := s.frame.lookup name

def declare (s : Scopes) (name : String) : Except ParseFault (Nat × Scopes) :=
  (s.frame.declare name).map fun (slot, f) => (slot, s.setFrame f)

def declareHidden (s : Scopes) : Nat × Scopes :=
  let (slot, f) := s.frame.allocate
  (slot, s.setFrame f)

def declareRoot (s : Scopes) (name : String) : Nat × Scopes :=
  let (slot, f) := s.root.declareOutermost name
  (slot, { s with root := f })

def pushScope (s : Scopes) : Scopes := s.modifyFrame .pushScope

def popScope (s : Scopes) : Scopes := s.modifyFrame .popScope

def pushLoop (s : Scopes) (loop : LoopScope) : Scopes := s.modifyFrame (·.pushLoop loop)

def popLoop (s : Scopes) : Scopes := s.modifyFrame .popLoop

def pushFrame (s : Scopes) : Scopes := { s with functions := .empty :: s.functions }

-- Leaves the frame of a function and tells its size.
def popFrame (s : Scopes) : Nat × Scopes :=
  (s.frame.nextSlot, { s with functions := s.functions.tail })

def innermostLoop? (s : Scopes) : Option LoopScope := s.frame.loops.head?

def hasLoop (s : Scopes) (label : Nat) : Bool := s.frame.hasLoop label

end Scopes

-- Labels are numbered from one in the order in which they are met; zero means none.
abbrev Labels := List (String × Nat)

namespace Labels

def index (labels : Labels) : Option String → Nat × Labels
  | none => (0, labels)
  | some label =>
    match labels.lookup label with
    | some i => (i, labels)
    | none => (labels.length + 1, (label, labels.length + 1) :: labels)

end Labels

end Stencil
