import Stencil.Text.Listing
import Stencil.Text.Quoted
import Stencil.Value.Iterator

namespace Stencil

-- The data of a host object. Objects of different layouts share no fields.
structure HostState where
  layout : String
  slots : List Value

-- A property of a host class. Writing yields the new state, or nothing when the value is refused.
structure Field where
  name : String
  read : HostState → Option Value
  write : Option (HostState → Value → Option HostState)

namespace Field

def isWritable (f : Field) : Bool := f.write.isSome

def listing (f : Field) : String :=
  Text.record "Field" [("name", Text.quote f.name), ("writable", toString f.isWritable)]

end Field

-- A class is known by its key. A class has no supertypes but those given here, so the hierarchy
-- has no cycles.
inductive Class where
  | mk (key : Nat) (name : String) (supers : List Class) (fields : List Field)

namespace Class

def key : Class → Nat
  | mk key _ _ _ => key

def name : Class → String
  | mk _ name _ _ => name

def supers : Class → List Class
  | mk _ _ supers _ => supers

def fields : Class → List Field
  | mk _ _ _ fields => fields

def any : Class := mk 0 "any" [] []
def null : Class := mk 1 "null" [] []
def number : Class := mk 2 "number" [any] []
def int : Class := mk 3 "int" [number] []
def float : Class := mk 4 "float" [number] []
def bool : Class := mk 5 "bool" [any] []
def string : Class := mk 6 "string" [any] []
def bytes : Class := mk 7 "bytes" [any] []
def collection : Class := mk 8 "collection" [any] []
def list : Class := mk 9 "list" [collection] []
def map : Class := mk 10 "map" [collection] []
def range : Class := mk 11 "range" [any] []
def function : Class := mk 12 "function" [any] []
def native : Class := mk 13 "native" [function] []
def iter : Class := mk 14 "iter" [any] []

def builtin : List Class :=
  [any, null, number, int, float, bool, string, bytes, collection, list, map, range, function,
    native, iter]

-- Classes of the host take their keys from here on.
def firstHostKey : Nat := 15

mutual

-- Whether the class or one of its supertypes has the key.
def descends (key : Nat) : Class → Bool
  | mk own _ supers _ => own = key || anyDescends key supers

def anyDescends (key : Nat) : List Class → Bool
  | [] => false
  | c :: rest => descends key c || anyDescends key rest

end

-- Whether a value of class `other` may be treated as one of class `self`.
def isAssignableFrom (self other : Class) : Bool :=
  self.key = any.key || descends self.key other

-- The first field of the name.
def field? (c : Class) (name : String) : Option Field := c.fields.find? (·.name = name)

def listing (c : Class) : String :=
  Text.record "Class" [("name", Text.quote c.name),
    ("supers", Text.bracketed (c.supers.map fun s => Text.quote s.name)),
    ("fields", Text.bracketed (c.fields.map Field.listing))]

end Class

end Stencil
