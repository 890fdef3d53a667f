import Stencil.Resolve.Strategy
import Stencil.Value.Lock

namespace Stencil.Resolve

-- A fault that tells of a key has its text made on the spot, under the locks that are held there.
def reported (heap : Heap) (key : Value) : Except Fault Value → Locking (Except Fault Value)
  | .error (.noSuchProperty typeName _) => do
    return .error (.noSuchProperty typeName (← key.displayLocking heap))
  | found => return found

def getList (heap : Heap) (target key : Value) : Locking (Except Fault Value) :=
  let found := reported heap key (readList heap target key)
  match target with
  | .list ref => holding (.list ref) .read found
  | _ => found

def getMap (heap : Heap) (target key : Value) : Locking (Except Fault Value) :=
  match target with
  | .map ref => holding (.map ref) .read do
    let name ← key.displayLocking heap
    return .ok (((heap.entries ref).lookup name).getD .null)
  | _ => reported heap key (readMap heap target key)

-- A list is locked for a key only that can be a place in it.
def setList (heap : Heap) (target key value : Value) : Locking (Except Fault (Option Heap)) :=
  let written := writeList heap target key value
  match target, key with
  | .list ref, .int _ => holding (.list ref) .write (return written)
  | _, _ => return written

-- A map is locked before the text of the key is made.
def setMap (heap : Heap) (target key value : Value) : Locking (Option Heap) :=
  match target with
  | .map ref => holding (.map ref) .write do
    let name ← key.displayLocking heap
    return some (heap.setEntries ref (Heap.putEntry name value (heap.entries ref)))
  | _ => return none

end Stencil.Resolve
