import Stencil.Source.Position

namespace Stencil

-- Why running a template stops.
inductive Fault where
  | unsupportedOperands (op left right : String)
  | unsupportedOperand (op operand : String)
  | divideByZero
  | integerOverflow (op : String)
  | notIterable (typeName : String)
  | notFunction (typeName : String)
  | noSuchElement
  | noSuchProperty (typeName property : String)
  | propertyNotWritable (typeName property : String)
  | indexOutOfBounds (index : Int64) (length : Nat)
  | unsupportedEncoding (name : String)
  | io (message : String)
  | native (name message : String)
  -- A fault raised deeper in the tree, which keeps its own place.
  | nested (pos : Position) (fault : Fault)
  deriving Repr, DecidableEq

-- A fault and the place of the node that raised it.
structure RuntimeError where
  pos : Position
  fault : Fault
  deriving Repr, DecidableEq

def errorText (pos : Position) (message : String) : String :=
  "Runtime error at line " ++ toString pos.line ++ ", column " ++ toString pos.column ++ ": " ++
    message

namespace Fault

def message : Fault → String
  | unsupportedOperands op left right =>
    "Unsupported operand types for '" ++ op ++ "': " ++ left ++ " and " ++ right
  | unsupportedOperand op operand => "Unsupported operand type for '" ++ op ++ "': " ++ operand
  | divideByZero => "Divide by zero"
  | integerOverflow op => "Integer overflow in '" ++ op ++ "'"
  | notIterable typeName => "Not iterable: " ++ typeName
  | notFunction typeName => "Not a function but a [" ++ typeName ++ "]"
  | noSuchElement => "no more next"
  | noSuchProperty typeName property =>
    "Invalid property or can't read: " ++ typeName ++ "#" ++ property
  | propertyNotWritable typeName property =>
    "Invalid property or can't write: " ++ typeName ++ "#" ++ property
  | indexOutOfBounds index length =>
    "Index " ++ toString index.toInt ++ " out of bounds for length " ++ toString length
  | unsupportedEncoding name => "Unsupported encoding: " ++ name
  | io message => "Failed to write output: " ++ message
  | native name message => name ++ ": " ++ message
  | nested pos fault => errorText pos fault.message

-- Attaches a place to a fault. A nested fault has one already.
def located (pos : Position) : Fault → RuntimeError
  | nested inner fault => ⟨inner, fault⟩
  | fault => ⟨pos, fault⟩

end Fault

namespace RuntimeError

def message (e : RuntimeError) : String := errorText e.pos e.fault.message

-- The error as a fault inside another node.
def nested (e : RuntimeError) : Fault := .nested e.pos e.fault

end RuntimeError

end Stencil
