import Stencil.Output.Encoding
import Stencil.Value.Equality

namespace Stencil

-- What strategies work on: the shared cells, and the lines that the host records, the last one
-- first.
structure Store where
  heap : Heap
  log : List String

namespace Store

def empty : Store := ⟨.empty, []⟩

def record (s : Store) (line : String) : Store := { s with log := line :: s.log }

end Store

-- How a property is read.
inductive Getter where
  | common | list | map | string | bytes | range | iter
  -- Fields of a class, indexed by name.
  | fieldTable (cls : Class)
  | custom (run : Value → Value → Store → Except Fault Value × Store)

-- How a property is written. The answer tells whether the value was stored.
inductive Setter where
  | common | list | map
  | fieldTable (cls : Class)
  | custom (run : Value → Value → Value → Store → Except Fault Bool × Store)

-- How a value becomes bytes in the encoding of the name.
inductive Serializer where
  | common | string
  | custom (run : Value → String → Store → Except Fault (List UInt8) × Store)

namespace Resolve

def noSuchProperty (heap : Heap) (target key : Value) : Fault :=
  .noSuchProperty (target.typeName heap) (key.display heap)

def lengthValue (n : Nat) : Value := .int (Int64.ofInt (min n Int64.maxValue.toInt))

-- An integer as a place among `length` ones.
def checkedIndex (index : Int64) (length : Nat) : Except Fault Nat :=
  if 0 ≤ index.toInt ∧ index.toInt < length then .ok index.toInt.toNat
  else .error (.indexOutOfBounds index length)

-- How far two integers are from each other, which is too far for a sign in some cases.
def distance (a b : Int64) : UInt64 :=
  if a < b then b.toUInt64 - a.toUInt64 else a.toUInt64 - b.toUInt64

-- The integer with a sign, or the largest one if it is too large for that.
def withSign (n : UInt64) : Int64 :=
  if n ≤ Int64.maxValue.toUInt64 then n.toInt64 else Int64.maxValue

-- The number of integers in a range. It stays at the largest integer, as cursors do.
def rangeSize (first last : Int64) : Int64 := Iterator.advance (withSign (distance first last))

-- The entry that a key means is the one of its text.
def mapKey (heap : Heap) (key : Value) : String := key.display heap

-- The field that the linear scan finds: the first of its name.
def scanField? (cls : Class) (key : Value) : Option Field := key.str?.bind cls.field?

-- The field that an index by name finds: a later field replaces an earlier one of its name.
def indexedField? (cls : Class) (key : Value) : Option Field :=
  key.str?.bind fun name => cls.fields.reverse.find? (·.name = name)

def readField (heap : Heap) (field : Option Field) (target : Value) : Option Value :=
  match target with
  | .host ref => (heap.hosts[ref]?).bind fun object => field.bind (·.read object.state)
  | _ => none

def writeField (heap : Heap) (field : Option Field) (target value : Value) : Option Heap :=
  match target with
  | .host ref =>
    (heap.hosts[ref]?).bind fun object =>
      (field.bind Field.write).bind fun write =>
        (write object.state value).map (heap.setState ref)
  | _ => none

def readList (heap : Heap) (target key : Value) : Except Fault Value :=
  match target, key with
  | .list ref, .int index => do
    let i ← checkedIndex index (heap.items ref).length
    return (heap.items ref).getD i .null
  | .list ref, .str name =>
    if name = "size" ∨ name = "length" then .ok (lengthValue (heap.items ref).length)
    else if name = "isEmpty" then .ok (.bool (heap.items ref).isEmpty)
    else .error (noSuchProperty heap target key)
  | _, _ => .error (noSuchProperty heap target key)

def readMap (heap : Heap) (target key : Value) : Except Fault Value :=
  match target with
  | .map ref => .ok (((heap.entries ref).lookup (mapKey heap key)).getD .null)
  | _ => .error (noSuchProperty heap target key)

def readString (heap : Heap) (target key : Value) : Except Fault Value :=
  match target, key with
  | .str text, .int index => do
    let i ← checkedIndex index text.length
    return ((text.toList[i]?).map fun c => .str (String.singleton c)).getD .null
  | .str text, .str name =>
    if name = "size" ∨ name = "length" then .ok (lengthValue text.length)
    else if name = "isEmpty" then .ok (.bool text.isEmpty)
    else .error (noSuchProperty heap target key)
  | _, _ => .error (noSuchProperty heap target key)

def readBytes (heap : Heap) (target key : Value) : Except Fault Value :=
  match target, key with
  | .bytes bs, .int index => do
    let i ← checkedIndex index bs.length
    return ((bs[i]?).map fun b => .int (Int64.ofInt b.toNat)).getD .null
  | .bytes bs, .str name =>
    if name = "size" ∨ name = "length" then .ok (lengthValue bs.length)
    else .error (noSuchProperty heap target key)
  | _, _ => .error (noSuchProperty heap target key)

def readRange (heap : Heap) (target key : Value) : Except Fault Value :=
  match target, key with
  | .range first last, .str name =>
    if name = "from" then .ok (.int first)
    else if name = "to" then .ok (.int last)
    else if name = "size" then .ok (.int (rangeSize first last))
    else .error (noSuchProperty heap target key)
  | _, _ => .error (noSuchProperty heap target key)

def readCommon (heap : Heap) (target key : Value) : Except Fault Value :=
  match readField heap (scanField? (target.cls heap) key) target with
  | some value => .ok value
  | none => .error (noSuchProperty heap target key)

-- A generated accessor answers for its own class, whatever the target is.
def readIndexed (heap : Heap) (cls : Class) (target key : Value) : Except Fault Value :=
  match readField heap (indexedField? cls key) target with
  | some value => .ok value
  | none => .error (.noSuchProperty cls.name (key.display heap))

def writeList (heap : Heap) (target key value : Value) : Except Fault (Option Heap) :=
  match target, key with
  | .list ref, .int index => do
    let i ← checkedIndex index (heap.items ref).length
    return some (heap.setItems ref ((heap.items ref).set i value))
  | _, _ => .ok none

def writeMap (heap : Heap) (target key value : Value) : Option Heap :=
  match target with
  | .map ref =>
    some (heap.setEntries ref (Heap.putEntry (mapKey heap key) value (heap.entries ref)))
  | _ => none

-- What an iterator says of itself. The first item counts as odd.
inductive LoopStatus where
  | index | hasNext | isFirst | isLast | isOdd | isEven

def LoopStatus.ofName? : String → Option LoopStatus
  | "index" => some .index
  | "hasNext" => some .hasNext
  | "isFirst" => some .isFirst
  | "isLast" => some .isLast
  | "isOdd" => some .isOdd
  | "isEven" => some .isEven
  | _ => none

end Resolve

end Stencil
