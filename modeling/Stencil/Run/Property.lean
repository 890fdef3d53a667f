import Stencil.Resolve.Locking
import Stencil.Run.Pull

namespace Stencil

-- A function of the host. It may ask for the next item of an iterator.
structure Native where
  name : String
  run : (Nat → WorldM Fault Value) → List Value → WorldM Fault Value

-- What running a tree may ask for beyond the tree itself: calling a value, and iterators by their
-- cells.
structure Linkage where
  call : Value → List Value → Position → WorldM RuntimeError Value
  hasNext : Nat → WorldM Fault Bool
  next : Nat → WorldM Fault Value

namespace Run

open Resolve

-- The state of the loop that an iterator drives.
def readStatus (k : Linkage) (ref : Nat) (status : LoopStatus) : WorldM Fault Value := do
  let heap ← WorldM.heap
  let index := Iterator.index heap (.shared ref)
  match status with
  | .index => return .int index
  | .hasNext => return .bool (← k.hasNext ref)
  | .isFirst => return .bool (index = 0)
  | .isLast => return .bool !(← k.hasNext ref)
  | .isOdd => return .bool (index % 2 = 0)
  | .isEven => return .bool (index % 2 ≠ 0)

def readIter (k : Linkage) (target key : Value) : WorldM Fault Value := do
  let heap ← WorldM.heap
  match target, key.str?.bind LoopStatus.ofName? with
  | .iter ref, some status => readStatus k ref status
  | _, _ => WorldM.fail (noSuchProperty heap target key)

def readWith (k : Linkage) (getter : Getter) (target key : Value) : WorldM Fault Value := do
  let heap ← WorldM.heap
  match getter with
  | .common => WorldM.ofExcept (readCommon heap target key)
  | .list => WorldM.ofExcept (← WorldM.locking (getList heap target key))
  | .map => WorldM.ofExcept (← WorldM.locking (getMap heap target key))
  | .string => WorldM.ofExcept (readString heap target key)
  | .bytes => WorldM.ofExcept (readBytes heap target key)
  | .range => WorldM.ofExcept (readRange heap target key)
  | .iter => readIter k target key
  | .fieldTable cls => WorldM.ofExcept (readIndexed heap cls target key)
  | .custom run => WorldM.onStore (run target key)

-- Takes over the changed heap, if there is one, and tells whether there was.
def store : Option Heap → WorldM Fault Bool
  | some heap => do
    WorldM.setHeap heap
    return true
  | none => return false

def writeWith (setter : Setter) (target key value : Value) : WorldM Fault Bool := do
  let heap ← WorldM.heap
  match setter with
  | .common => store (writeField heap (scanField? (target.cls heap) key) target value)
  | .list => store (← WorldM.ofExcept (← WorldM.locking (setList heap target key value)))
  | .map => store (← WorldM.locking (setMap heap target key value))
  | .fieldTable cls => store (writeField heap (indexedField? cls key) target value)
  | .custom run => WorldM.onStore (run target key value)

def serializeWith (serializer : Serializer) (v : Value) (encoding : String) :
    WorldM Fault (List UInt8) := do
  match serializer with
  | .common | .string =>
    let encoding ← WorldM.ofExcept (Encoding.ofName encoding)
    return encoding.encode (v.display (← WorldM.heap))
  | .custom run => WorldM.onStore (run v encoding)

-- Applies a choice of strategy, which is remembered.
def choose (pick : Resolvers → Class → R × Resolvers) (v : Value) : WorldM Fault R := do
  let w ← get
  let (strategy, resolvers) := pick w.resolvers (v.cls w.heap)
  set { w with resolvers }
  return strategy

-- Reads a property. Everything in `null` is `null`.
def getProperty (k : Linkage) (target key : Value) : WorldM Fault Value := do
  if target.isNull then return .null
  else readWith k (← choose Resolvers.chooseGetter target) target key

-- Writes a property, and tells whether the value was stored.
def setProperty (target key value : Value) : WorldM Fault Bool := do
  if target.isNull then return false
  else writeWith (← choose Resolvers.chooseSetter target) target key value

-- The bytes of a value. `null` has none, and byte strings are their own.
def toBytes (v : Value) (encoding : String) : WorldM Fault (Option (List UInt8)) := do
  match v with
  | .null => return none
  | .bytes bs => return some bs
  | v => return some (← serializeWith (← choose Resolvers.chooseSerializer v) v encoding)

end Run

end Stencil
