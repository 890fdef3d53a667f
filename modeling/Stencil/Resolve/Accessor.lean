import Stencil.Host.Class

namespace Stencil

-- Direct access to the fields of one class.
structure Accessor where
  cls : Class

-- Why a class has no accessor.
inductive GenerateError where
  | noFields (className : String)
  deriving Repr, DecidableEq

namespace GenerateError

def message : GenerateError → String
  | noFields className => "class " ++ className ++ " exposes no fields"

end GenerateError

namespace Accessor

def generate (cls : Class) : Except GenerateError Accessor :=
  if cls.fields.isEmpty then .error (.noFields cls.name) else .ok ⟨cls⟩

end Accessor

-- Accessors made so far, by the key of their class.
abbrev AccessorCache := List (Nat × Accessor)

namespace AccessorCache

-- The accessor of a class, which is made on first use.
def find (cache : AccessorCache) (cls : Class) : Option Accessor × AccessorCache :=
  match cache.lookup cls.key with
  | some accessor => (some accessor, cache)
  | none =>
    match Accessor.generate cls with
    | .ok accessor => (some accessor, (cls.key, accessor) :: cache)
    | .error _ => (none, cache)

end AccessorCache

end Stencil
