import Stencil.Host.Class

namespace Stencil

-- The text of a host object: pieces of its own and texts of values.
inductive Piece where
  | text (s : String)
  | value (v : Value)

-- An object of the host: its class, its data, and how it is shown and iterated.
structure HostObject where
  cls : Class
  state : HostState
  display : HostState → List Piece
  debug : HostState → List Piece
  iterate : HostState → Option Iterator

-- All shared cells. A map keeps its entries in the order in which their keys first came.
structure Heap where
  lists : Array (List Value)
  maps : Array (List (String × Value))
  iters : Array Iterator
  hosts : Array HostObject

namespace Heap

def empty : Heap := ⟨#[], #[], #[], #[]⟩

def items (h : Heap) (ref : Nat) : List Value := h.lists.getD ref []

def entries (h : Heap) (ref : Nat) : List (String × Value) := h.maps.getD ref []

def newList (h : Heap) (items : List Value) : Value × Heap :=
  (.list h.lists.size, { h with lists := h.lists.push items })

def newMap (h : Heap) (entries : List (String × Value)) : Value × Heap :=
  (.map h.maps.size, { h with maps := h.maps.push entries })

def newIter (h : Heap) (it : Iterator) : Value × Heap :=
  (.iter h.iters.size, { h with iters := h.iters.push it })

def newHost (h : Heap) (object : HostObject) : Value × Heap :=
  (.host h.hosts.size, { h with hosts := h.hosts.push object })

def setItems (h : Heap) (ref : Nat) (items : List Value) : Heap :=
  { h with lists := h.lists.setIfInBounds ref items }

def setEntries (h : Heap) (ref : Nat) (entries : List (String × Value)) : Heap :=
  { h with maps := h.maps.setIfInBounds ref entries }

def setIter (h : Heap) (ref : Nat) (it : Iterator) : Heap :=
  { h with iters := h.iters.setIfInBounds ref it }

def setState (h : Heap) (ref : Nat) (state : HostState) : Heap :=
  { h with hosts := h.hosts.modify ref ({ · with state }) }

-- Sets the value of a key. A key that is there keeps its place, a new one comes last.
def putEntry (key : String) (value : Value) : List (String × Value) → List (String × Value)
  | [] => [(key, value)]
  | (k, v) :: rest => if k = key then (k, value) :: rest else (k, v) :: putEntry key value rest

end Heap

namespace Value

def cls (heap : Heap) : Value → Class
  | .null => .null
  | .bool _ => .bool
  | .int _ => .int
  | .float _ => .float
  | .str _ => .string
  | .bytes _ => .bytes
  | .list _ => .list
  | .map _ => .map
  | .range .. => .range
  | .function .. => .function
  | .native .. => .native
  | .iter _ => .iter
  | .host ref => ((heap.hosts[ref]?).map HostObject.cls).getD .any

def typeName (heap : Heap) (v : Value) : String := (v.cls heap).name

def isTruthy (heap : Heap) : Value → Bool
  | .null => false
  | .bool b => b
  | .int n => n ≠ 0
  | .float x => x != 0
  | .str s => !s.isEmpty
  | .bytes bs => !bs.isEmpty
  | .list ref => !(heap.items ref).isEmpty
  | .map ref => !(heap.entries ref).isEmpty
  | .range .. | .function .. | .native .. | .iter _ | .host _ => true

end Value

end Stencil
