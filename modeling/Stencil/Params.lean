import Stencil.Value.Equality

namespace Stencil

-- Values by name, handed to a render. Every name occurs once.
structure Params where
  entries : List (String × Value)

namespace Params

def empty : Params := ⟨[]⟩

def insert (p : Params) (name : String) (v : Value) : Params := ⟨Heap.putEntry name v p.entries⟩

def ofList (entries : List (String × Value)) : Params :=
  entries.foldl (fun p (name, v) => p.insert name v) .empty

def get? (p : Params) (name : String) : Option Value := p.entries.lookup name

def contains (p : Params) (name : String) : Bool := (p.get? name).isSome

def size (p : Params) : Nat := p.entries.length

def isEmpty (p : Params) : Bool := p.entries.isEmpty

-- The same names with equal values.
def eq (heap : Heap) (p q : Params) : Bool :=
  p.size = q.size && p.entries.all fun (name, v) =>
    match q.get? name with
    | some u => v.eq heap u
    | none => false

end Params

end Stencil
