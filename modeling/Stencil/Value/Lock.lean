import Stencil.Value.Display

namespace Stencil

-- Every list and every map has a lock of its own, with many readers or one writer.
inductive Access where
  | read
  | write
  deriving Repr, DecidableEq

-- What the running thread itself makes of a lock.
inductive LockState where
  | free
  | reading
  | writing
  deriving Repr, DecidableEq

-- Whether a request is granted at once. Readers do not keep each other out.
def LockState.grants : LockState → Access → Bool
  | .free, _ => true
  | .reading, .read => true
  | .reading, .write => false
  | .writing, _ => false

-- The locks that are held, the innermost first. Each is released where the step ends that took it.
abbrev HeldLocks := List (Container × Access)

def HeldLocks.state (held : HeldLocks) (c : Container) : LockState :=
  if held.contains (c, .write) then .writing
  else if held.contains (c, .read) then .reading
  else .free

-- A step under locks. One that asks for a lock which its own thread has to release first waits for
-- ever, and gives nothing.
abbrev Locking (α : Type) := ReaderT HeldLocks Option α

def holding (c : Container) (access : Access) (act : Locking α) : Locking α := fun held =>
  if (held.state c).grants access then act ((c, access) :: held) else none

namespace Value

-- The text of a value, made as `displayWithin` says. A list or map is read under its lock.
def displayUnder (heap : Heap) : Nat → List Nat → List Container → Value → Locking String
  | fuel, shown, enclosing, .list ref =>
    if enclosing.contains (.list ref) then return "[...]"
    else match fuel with
      | 0 => return ""
      | fuel + 1 => holding (.list ref) .read do
        let texts ← (heap.items ref).mapM (displayUnder heap fuel shown (.list ref :: enclosing))
        return "[" ++ ", ".intercalate texts ++ "]"
  | fuel, shown, enclosing, .map ref =>
    if enclosing.contains (.map ref) then return "\x7b...\x7d"
    else match fuel with
      | 0 => return ""
      | fuel + 1 => holding (.map ref) .read do
        let texts ← (heap.entries ref).mapM fun (key, value) =>
          (key ++ ": " ++ ·) <$> displayUnder heap fuel shown (.map ref :: enclosing) value
        return "\x7b" ++ ", ".intercalate texts ++ "\x7d"
  | fuel, shown, _, .host ref =>
    if shown.contains ref then return ""
    else match fuel with
      | 0 => return ""
      | fuel + 1 =>
        match heap.hosts[ref]? with
        | some object =>
          String.join <$> (object.display object.state).mapM fun
            | .text s => return s
            | .value v => displayUnder heap fuel (ref :: shown) [] v
        | none => return ""
  | fuel, shown, enclosing, v => return displayWithin heap fuel shown enclosing v

def displayLocking (heap : Heap) (v : Value) : Locking String :=
  displayUnder heap (displayDepth heap) [] [] v

end Value

end Stencil
