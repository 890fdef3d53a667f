import Stencil.Resolve.Accessor
import Stencil.Resolve.Strategy

namespace Stencil

-- Any subset of the three strategies.
structure Offer where
  getter : Option Getter := none
  setter : Option Setter := none
  serializer : Option Serializer := none

-- A declaration of strategies: for one class only, for a class and all that can stand for it, or
-- a bundle of other declarations.
inductive Registration where
  | exact (cls : Class) (offer : Offer)
  | assignable (cls : Class) (offer : Offer)
  | delegating (entries : List Registration)

-- The strategies of one capability: those settled for a class by its key, the first one counting,
-- and those that apply to every class assignable to theirs, in order of registration.
structure Tier (R : Type) where
  settled : List (Nat × R)
  assignable : List (Class × R)

namespace Tier

def empty : Tier R := ⟨[], []⟩

def find? (t : Tier R) (cls : Class) : Option R := t.settled.lookup cls.key

-- Settles the strategy of a class unless that is done.
def settle (t : Tier R) (cls : Class) (strategy : R) : Tier R :=
  match t.find? cls with
  | some _ => t
  | none => { t with settled := (cls.key, strategy) :: t.settled }

def addExact (t : Tier R) (cls : Class) : Option R → Tier R
  | some strategy => t.settle cls strategy
  | none => t

def addAssignable (t : Tier R) (cls : Class) : Option R → Tier R
  | some strategy => { t with assignable := t.assignable ++ [(cls, strategy)] }
  | none => t

def findAssignable? (t : Tier R) (cls : Class) : Option R :=
  (t.assignable.find? fun (owner, _) => owner.isAssignableFrom cls).map Prod.snd

end Tier

-- Strategies for all classes. What is chosen for a class is settled and never replaced.
structure Resolvers where
  getters : Tier Getter
  setters : Tier Setter
  serializers : Tier Serializer
  -- Accessors are made only if there is a place for them.
  accessors : Option AccessorCache

namespace Resolvers

def empty (generateAccessors : Bool) : Resolvers :=
  ⟨.empty, .empty, .empty, if generateAccessors then some [] else none⟩

def addExact (r : Resolvers) (cls : Class) (offer : Offer) : Resolvers :=
  { r with
    getters := r.getters.addExact cls offer.getter
    setters := r.setters.addExact cls offer.setter
    serializers := r.serializers.addExact cls offer.serializer }

def addAssignable (r : Resolvers) (cls : Class) (offer : Offer) : Resolvers :=
  { r with
    getters := r.getters.addAssignable cls offer.getter
    setters := r.setters.addAssignable cls offer.setter
    serializers := r.serializers.addAssignable cls offer.serializer }

mutual

def register (r : Resolvers) : Registration → Resolvers
  | .exact cls offer => r.addExact cls offer
  | .assignable cls offer => r.addAssignable cls offer
  | .delegating entries => registerAll r entries

def registerAll (r : Resolvers) : List Registration → Resolvers
  | [] => r
  | entry :: rest => registerAll (register r entry) rest

end

-- The built-in strategies for the kinds of values.
def defaults : Registration :=
  .delegating [
    .exact .list { getter := some .list, setter := some .list },
    .exact .map { getter := some .map, setter := some .map },
    .exact .string { getter := some .string, serializer := some .string },
    .exact .bytes { getter := some .bytes },
    .exact .range { getter := some .range },
    .exact .iter { getter := some .iter }]

def init (registrations : List Registration) (generateAccessors : Bool) : Resolvers :=
  (empty generateAccessors).registerAll registrations

-- The built-in strategies, then the given ones.
def withDefaults (registrations : List Registration) (generateAccessors : Bool) : Resolvers :=
  init (defaults :: registrations) generateAccessors

-- The accessor of a class, if accessors are made.
def accessor (r : Resolvers) (cls : Class) : Option Accessor × Resolvers :=
  match r.accessors with
  | some cache =>
    let (found, cache) := cache.find cls
    (found, { r with accessors := some cache })
  | none => (none, r)

-- The strategy of a class is the one settled for it, else the first assignable one, else that of
-- the class's accessor, else the common one.
def chooseGetter (r : Resolvers) (cls : Class) : Getter × Resolvers :=
  match r.getters.find? cls with
  | some g => (g, r)
  | none =>
    let (g, r) := match r.getters.findAssignable? cls with
      | some g => (g, r)
      | none =>
        match r.accessor cls with
        | (some accessor, r) => (.fieldTable accessor.cls, r)
        | (none, r) => (.common, r)
    (g, { r with getters := r.getters.settle cls g })

def chooseSetter (r : Resolvers) (cls : Class) : Setter × Resolvers :=
  match r.setters.find? cls with
  | some s => (s, r)
  | none =>
    let (s, r) := match r.setters.findAssignable? cls with
      | some s => (s, r)
      | none =>
        match r.accessor cls with
        | (some accessor, r) => (.fieldTable accessor.cls, r)
        | (none, r) => (.common, r)
    (s, { r with setters := r.setters.settle cls s })

def chooseSerializer (r : Resolvers) (cls : Class) : Serializer × Resolvers :=
  match r.serializers.find? cls with
  | some s => (s, r)
  | none =>
    let s := (r.serializers.findAssignable? cls).getD .common
    (s, { r with serializers := r.serializers.settle cls s })

end Resolvers

end Stencil
