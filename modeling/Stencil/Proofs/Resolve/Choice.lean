import Stencil.Resolve.Registry

namespace Stencil

-- Classes of one host, which their keys tell apart. Kinds of values are among them.
structure Hierarchy where
  known : Class → Prop
  builtin : ∀ cls ∈ Class.builtin, known cls
  distinct : ∀ cls other, known cls → known other → cls.key = other.key → cls = other

namespace Registration

mutual

-- The declarations that a registration comes to, with bundles taken apart in their places.
def flatten : Registration → List Registration
  | .exact cls offer => [.exact cls offer]
  | .assignable cls offer => [.assignable cls offer]
  | .delegating entries => flattenAll entries

def flattenAll : List Registration → List Registration
  | [] => []
  | entry :: rest => entry.flatten ++ flattenAll rest

end

def exactFor (pick : Offer → Option R) (cls : Class) : Registration → Option R
  | .exact owner offer => if owner.key = cls.key then pick offer else none
  | _ => none

def assignableFor (pick : Offer → Option R) (cls : Class) : Registration → Option R
  | .assignable owner offer => if owner.isAssignableFrom cls then pick offer else none
  | _ => none

-- The first strategy that is declared for exactly the class.
def firstExact (pick : Offer → Option R) (registrations : List Registration) (cls : Class) :
    Option R :=
  (flattenAll registrations).findSome? (exactFor pick cls)

-- The first strategy that is declared for a class to which this one can be assigned.
def firstAssignable (pick : Offer → Option R) (registrations : List Registration) (cls : Class) :
    Option R :=
  (flattenAll registrations).findSome? (assignableFor pick cls)

-- An exact declaration counts before all assignable ones, and any of them before the rest.
def strategyFor (pick : Offer → Option R) (registrations : List Registration) (cls : Class)
    (otherwise : R) : R :=
  ((firstExact pick registrations cls).or (firstAssignable pick registrations cls)).getD otherwise

-- Whether fields of the class are accessed directly where nothing is declared for it.
def generates (generate : Bool) (cls : Class) : Bool := generate && !cls.fields.isEmpty

def getterFor (registrations : List Registration) (generate : Bool) (cls : Class) : Getter :=
  strategyFor Offer.getter registrations cls
    (if generates generate cls then .fieldTable cls else .common)

def setterFor (registrations : List Registration) (generate : Bool) (cls : Class) : Setter :=
  strategyFor Offer.setter registrations cls
    (if generates generate cls then .fieldTable cls else .common)

def serializerFor (registrations : List Registration) (cls : Class) : Serializer :=
  strategyFor Offer.serializer registrations cls .common

end Registration

-- What a manager is asked for.
inductive Lookup where
  | get (cls : Class)
  | set (cls : Class)
  | toBytes (cls : Class)

def Lookup.cls : Lookup → Class
  | get cls => cls
  | set cls => cls
  | toBytes cls => cls

namespace Resolvers

def look (r : Resolvers) : Lookup → Resolvers
  | .get cls => (r.chooseGetter cls).2
  | .set cls => (r.chooseSetter cls).2
  | .toBytes cls => (r.chooseSerializer cls).2

-- What a manager knows after it was asked for all that.
def after (r : Resolvers) (history : List Lookup) : Resolvers := history.foldl look r

end Resolvers

open Registration

namespace Tier

theorem find?_settle (t : Tier R) (cls : Class) (strategy : R) (other : Class) :
    (t.settle cls strategy).find? other =
      (t.find? other).or (if cls.key = other.key then some strategy else none) := by
  unfold settle
  by_cases hkey : cls.key = other.key
  · have hsame : t.find? cls = t.find? other := by
      unfold find?
      rw [hkey]
    rw [hsame, if_pos hkey]
    cases hfound : t.find? other with
    | some found => simp [hfound]
    | none => simp [find?, hkey]
  · rw [if_neg hkey, Option.or_none]
    split
    · rfl
    · have hne : (other.key == cls.key) = false := by simpa using Ne.symm hkey
      simp [find?, List.lookup_cons, hne]

theorem findAssignable?_settle (t : Tier R) (cls : Class) (strategy : R) (other : Class) :
    (t.settle cls strategy).findAssignable? other = t.findAssignable? other := by
  unfold settle
  split
  · rfl
  · rfl

theorem find?_addExact (t : Tier R) (owner : Class) (offer : Option R) (cls : Class) :
    (t.addExact owner offer).find? cls =
      (t.find? cls).or (if owner.key = cls.key then offer else none) := by
  cases offer with
  | none => simp [addExact]
  | some strategy => exact t.find?_settle owner strategy cls

theorem findAssignable?_addExact (t : Tier R) (owner : Class) (offer : Option R) (cls : Class) :
    (t.addExact owner offer).findAssignable? cls = t.findAssignable? cls := by
  cases offer with
  | none => rfl
  | some strategy => exact t.findAssignable?_settle owner strategy cls

theorem find?_addAssignable (t : Tier R) (owner : Class) (offer : Option R) (cls : Class) :
    (t.addAssignable owner offer).find? cls = t.find? cls := by
  cases offer with
  | none => rfl
  | some strategy => rfl

theorem findAssignable?_addAssignable (t : Tier R) (owner : Class) (offer : Option R)
    (cls : Class) :
    (t.addAssignable owner offer).findAssignable? cls =
      (t.findAssignable? cls).or (if owner.isAssignableFrom cls then offer else none) := by
  cases offer with
  | none => simp [addAssignable]
  | some strategy =>
      unfold addAssignable findAssignable?
      rw [List.find?_append, Option.map_or]
      by_cases howner : owner.isAssignableFrom cls = true
      · simp [howner]
      · simp [howner]

-- What one declaration adds to the strategies of a capability.
def declare (pick : Offer → Option R) (t : Tier R) : Registration → Tier R
  | .exact cls offer => t.addExact cls (pick offer)
  | .assignable cls offer => t.addAssignable cls (pick offer)
  | .delegating _ => t

theorem find?_declare (pick : Offer → Option R) (t : Tier R) (entry : Registration) (cls : Class) :
    (t.declare pick entry).find? cls = (t.find? cls).or (exactFor pick cls entry) := by
  cases entry with
  | exact owner offer =>
      rw [declare, exactFor]
      exact t.find?_addExact owner (pick offer) cls
  | assignable owner offer =>
      rw [declare, exactFor, Option.or_none]
      · exact t.find?_addAssignable owner (pick offer) cls
      · simp
  | delegating entries => simp [declare, exactFor]

theorem findAssignable?_declare (pick : Offer → Option R) (t : Tier R) (entry : Registration)
    (cls : Class) :
    (t.declare pick entry).findAssignable? cls =
      (t.findAssignable? cls).or (assignableFor pick cls entry) := by
  cases entry with
  | exact owner offer =>
      rw [declare, assignableFor, Option.or_none]
      · exact t.findAssignable?_addExact owner (pick offer) cls
      · simp
  | assignable owner offer =>
      rw [declare, assignableFor]
      exact t.findAssignable?_addAssignable owner (pick offer) cls
  | delegating entries => simp [declare, assignableFor]

theorem find?_declareAll (pick : Offer → Option R) (t : Tier R) (entries : List Registration)
    (cls : Class) :
    (entries.foldl (declare pick) t).find? cls =
      (t.find? cls).or (entries.findSome? (exactFor pick cls)) := by
  induction entries generalizing t with
  | nil => exact (Option.or_none).symm
  | cons entry rest ih =>
      rw [List.foldl_cons, ih, find?_declare, Option.or_assoc, List.findSome?_cons]
      cases exactFor pick cls entry <;> rfl

theorem findAssignable?_declareAll (pick : Offer → Option R) (t : Tier R)
    (entries : List Registration) (cls : Class) :
    (entries.foldl (declare pick) t).findAssignable? cls =
      (t.findAssignable? cls).or (entries.findSome? (assignableFor pick cls)) := by
  induction entries generalizing t with
  | nil => exact (Option.or_none).symm
  | cons entry rest ih =>
      rw [List.foldl_cons, ih, findAssignable?_declare, Option.or_assoc, List.findSome?_cons]
      cases assignableFor pick cls entry <;> rfl

-- Whatever is settled for a class of the hierarchy is what the declarations choose for it, and what
-- is declared for exactly one class is settled from the start.
structure Serves (H : Hierarchy) (pick : Offer → Option R) (registrations : List Registration)
    (otherwise : Class → R) (t : Tier R) : Prop where
  settled : ∀ {cls strategy}, H.known cls → t.find? cls = some strategy →
    strategy = strategyFor pick registrations cls (otherwise cls)
  exact : ∀ {cls}, t.find? cls = none → firstExact pick registrations cls = none
  assignable : ∀ cls, t.findAssignable? cls = firstAssignable pick registrations cls

namespace Serves

variable {H : Hierarchy} {pick : Offer → Option R} {registrations : List Registration}
  {otherwise : Class → R} {t : Tier R} {cls : Class}

theorem declareAll (H : Hierarchy) (pick : Offer → Option R) (registrations : List Registration)
    (otherwise : Class → R) :
    Serves H pick registrations otherwise
      ((flattenAll registrations).foldl (declare pick) Tier.empty) where
  settled := by
    intro cls strategy _ hfound
    rw [find?_declareAll] at hfound
    have hexact : firstExact pick registrations cls = some strategy := hfound
    rw [strategyFor, hexact]
    rfl
  exact := by
    intro cls hnone
    rw [find?_declareAll] at hnone
    exact hnone
  assignable := by
    intro cls
    rw [findAssignable?_declareAll]
    rfl

-- Where nothing is settled the assignable strategies decide, or what there is otherwise.
theorem choice (h : t.Serves H pick registrations otherwise) (hnone : t.find? cls = none) :
    (t.findAssignable? cls).getD (otherwise cls) =
      strategyFor pick registrations cls (otherwise cls) := by
  rw [strategyFor, h.exact hnone, h.assignable, Option.none_or]

theorem settle (h : t.Serves H pick registrations otherwise) (hcls : H.known cls) :
    (t.settle cls (strategyFor pick registrations cls (otherwise cls))).Serves H pick registrations
      otherwise where
  settled := by
    intro other strategy hother hfound
    rw [find?_settle] at hfound
    cases hold : t.find? other with
    | some old =>
        rw [hold] at hfound
        cases hfound
        exact h.settled hother hold
    | none =>
        rw [hold, Option.none_or] at hfound
        by_cases hkey : cls.key = other.key
        · rw [if_pos hkey] at hfound
          cases hfound
          rw [H.distinct cls other hcls hother hkey]
        · rw [if_neg hkey] at hfound
          cases hfound
  exact := by
    intro other hother
    rw [find?_settle] at hother
    exact h.exact (Option.or_eq_none_iff.mp hother).1
  assignable := by
    intro other
    rw [findAssignable?_settle]
    exact h.assignable other

end Serves

end Tier

-- Accessors are made for classes with fields if they are made at all, and each one is for the class
-- under whose key it is kept.
structure AccessorsServe (H : Hierarchy) (generate : Bool) (accessors : Option AccessorCache) :
    Prop where
  isSome : accessors.isSome = generate
  made : ∀ {cache cls accessor}, accessors = some cache → H.known cls →
    cache.lookup cls.key = some accessor → accessor.cls = cls ∧ cls.fields.isEmpty = false

theorem AccessorsServe.find {H : Hierarchy} {generate : Bool} {cache : AccessorCache}
    (h : AccessorsServe H generate (some cache)) {cls : Class} (hcls : H.known cls) :
    (cache.find cls).1 = (if generates generate cls then some ⟨cls⟩ else none) ∧
      AccessorsServe H generate (some (cache.find cls).2) := by
  obtain rfl : true = generate := h.isSome
  unfold AccessorCache.find generates Accessor.generate
  cases hfound : cache.lookup cls.key with
  | some accessor =>
      obtain ⟨hmade, hfields⟩ := h.made rfl hcls hfound
      rcases accessor with ⟨owner⟩
      obtain rfl : owner = cls := hmade
      exact ⟨by simp [hfields], h⟩
  | none =>
      by_cases hfields : cls.fields.isEmpty = true
      · simp [hfields, h]
      · refine ⟨by simp [hfields], ?_⟩
        simp only [hfields]
        refine ⟨rfl, ?_⟩
        intro cache' other accessor hcache hother hlookup
        cases hcache
        by_cases hkey : cls.key = other.key
        · obtain rfl := H.distinct cls other hcls hother hkey
          simp only [Bool.false_eq_true, if_false, List.lookup_cons, beq_self_eq_true] at hlookup
          cases hlookup
          exact ⟨rfl, by simpa using hfields⟩
        · have hne : (other.key == cls.key) = false := by simpa using Ne.symm hkey
          simp only [Bool.false_eq_true, if_false, List.lookup_cons, hne] at hlookup
          exact h.made rfl hother hlookup

namespace Resolvers

def declareAll (r : Resolvers) (entries : List Registration) : Resolvers :=
  { r with
    getters := entries.foldl (Tier.declare Offer.getter) r.getters
    setters := entries.foldl (Tier.declare Offer.setter) r.setters
    serializers := entries.foldl (Tier.declare Offer.serializer) r.serializers }

theorem declareAll_append (r : Resolvers) (first rest : List Registration) :
    r.declareAll (first ++ rest) = (r.declareAll first).declareAll rest := by
  simp only [declareAll, List.foldl_append]

-- A bundle declares what its entries declare, in their order.
mutual

theorem register_eq (r : Resolvers) (entry : Registration) :
    r.register entry = r.declareAll entry.flatten := by
  cases entry with
  | exact cls offer => rfl
  | assignable cls offer => rfl
  | delegating entries =>
      rw [register, flatten]
      exact registerAll_eq r entries

theorem registerAll_eq (r : Resolvers) (entries : List Registration) :
    r.registerAll entries = r.declareAll (flattenAll entries) := by
  cases entries with
  | nil => rfl
  | cons entry rest =>
      rw [registerAll, flattenAll, declareAll_append, register_eq r entry]
      exact registerAll_eq _ rest

end

-- Nothing that is settled differs from what the registrations say.
structure Settled (H : Hierarchy) (registrations : List Registration) (generate : Bool)
    (r : Resolvers) : Prop where
  getters : r.getters.Serves H Offer.getter registrations fun cls =>
    if generates generate cls then .fieldTable cls else .common
  setters : r.setters.Serves H Offer.setter registrations fun cls =>
    if generates generate cls then .fieldTable cls else .common
  serializers : r.serializers.Serves H Offer.serializer registrations fun _ => .common
  accessors : AccessorsServe H generate r.accessors

namespace Settled

variable {H : Hierarchy} {registrations : List Registration} {generate : Bool} {r : Resolvers}
  {cls : Class}

theorem init (H : Hierarchy) (registrations : List Registration) (generate : Bool) :
    (Resolvers.init registrations generate).Settled H registrations generate := by
  rw [Resolvers.init, registerAll_eq]
  refine ⟨.declareAll H _ _ _, .declareAll H _ _ _, .declareAll H _ _ _, ?_⟩
  cases generate with
  | false => exact ⟨rfl, fun hcache => by cases hcache⟩
  | true =>
      refine ⟨rfl, ?_⟩
      intro cache cls accessor hcache _ hlookup
      cases hcache
      cases hlookup

theorem accessor (h : r.Settled H registrations generate) (hcls : H.known cls) :
    ∃ kept, r.accessor cls = (if generates generate cls then some ⟨cls⟩ else none, kept) ∧
      kept.Settled H registrations generate := by
  have haccessors := h.accessors
  unfold Resolvers.accessor
  cases hcache : r.accessors with
  | none =>
      obtain rfl : false = generate := by
        rw [← haccessors.isSome, hcache]
        rfl
      exact ⟨r, rfl, h⟩
  | some cache =>
      rw [hcache] at haccessors
      obtain ⟨hfound, hkept⟩ := haccessors.find hcls
      refine ⟨{ r with accessors := some (cache.find cls).2 }, ?_, h.getters, h.setters,
        h.serializers, hkept⟩
      rw [← hfound]

theorem chooseGetter (h : r.Settled H registrations generate) (hcls : H.known cls) :
    (r.chooseGetter cls).1 = getterFor registrations generate cls ∧
      (r.chooseGetter cls).2.Settled H registrations generate := by
  unfold Resolvers.chooseGetter
  cases hfound : r.getters.find? cls with
  | some getter => exact ⟨h.getters.settled hcls hfound, h⟩
  | none =>
      have hchoice := h.getters.choice hfound
      change _ = getterFor registrations generate cls at hchoice
      cases hassigned : r.getters.findAssignable? cls with
      | some getter =>
          rw [hassigned] at hchoice
          obtain rfl : getter = getterFor registrations generate cls := hchoice
          exact ⟨rfl, h.getters.settle hcls, h.setters, h.serializers, h.accessors⟩
      | none =>
          obtain ⟨kept, hmade, hkept⟩ := h.accessor hcls
          have hsettle := hkept.getters.settle hcls
          rw [hassigned] at hchoice
          change Tier.Serves H _ _ _
            (kept.getters.settle cls (getterFor registrations generate cls)) at hsettle
          cases hgenerates : generates generate cls with
          | true =>
              simp only [hgenerates, if_true, Option.getD_none] at hmade hchoice
              simp only [hmade, hchoice]
              exact ⟨trivial, hsettle, hkept.setters, hkept.serializers, hkept.accessors⟩
          | false =>
              simp only [hgenerates, Bool.false_eq_true, if_false, Option.getD_none]
                at hmade hchoice
              simp only [hmade, hchoice]
              exact ⟨trivial, hsettle, hkept.setters, hkept.serializers, hkept.accessors⟩

theorem chooseSetter (h : r.Settled H registrations generate) (hcls : H.known cls) :
    (r.chooseSetter cls).1 = setterFor registrations generate cls ∧
      (r.chooseSetter cls).2.Settled H registrations generate := by
  unfold Resolvers.chooseSetter
  cases hfound : r.setters.find? cls with
  | some setter => exact ⟨h.setters.settled hcls hfound, h⟩
  | none =>
      have hchoice := h.setters.choice hfound
      change _ = setterFor registrations generate cls at hchoice
      cases hassigned : r.setters.findAssignable? cls with
      | some setter =>
          rw [hassigned] at hchoice
          obtain rfl : setter = setterFor registrations generate cls := hchoice
          exact ⟨rfl, h.getters, h.setters.settle hcls, h.serializers, h.accessors⟩
      | none =>
          obtain ⟨kept, hmade, hkept⟩ := h.accessor hcls
          have hsettle := hkept.setters.settle hcls
          rw [hassigned] at hchoice
          change Tier.Serves H _ _ _
            (kept.setters.settle cls (setterFor registrations generate cls)) at hsettle
          cases hgenerates : generates generate cls with
          | true =>
              simp only [hgenerates, if_true, Option.getD_none] at hmade hchoice
              simp only [hmade, hchoice]
              exact ⟨trivial, hkept.getters, hsettle, hkept.serializers, hkept.accessors⟩
          | false =>
              simp only [hgenerates, Bool.false_eq_true, if_false, Option.getD_none]
                at hmade hchoice
              simp only [hmade, hchoice]
              exact ⟨trivial, hkept.getters, hsettle, hkept.serializers, hkept.accessors⟩

theorem chooseSerializer (h : r.Settled H registrations generate) (hcls : H.known cls) :
    (r.chooseSerializer cls).1 = serializerFor registrations cls ∧
      (r.chooseSerializer cls).2.Settled H registrations generate := by
  unfold Resolvers.chooseSerializer
  cases hfound : r.serializers.find? cls with
  | some serializer => exact ⟨h.serializers.settled hcls hfound, h⟩
  | none =>
      have hchoice := h.serializers.choice hfound
      change _ = serializerFor registrations cls at hchoice
      simp only [hchoice]
      exact ⟨trivial, h.getters, h.setters, h.serializers.settle hcls, h.accessors⟩

theorem look (h : r.Settled H registrations generate) {lookup : Lookup}
    (hlookup : H.known lookup.cls) : (r.look lookup).Settled H registrations generate := by
  cases lookup with
  | get cls => exact (h.chooseGetter hlookup).2
  | set cls => exact (h.chooseSetter hlookup).2
  | toBytes cls => exact (h.chooseSerializer hlookup).2

-- No history of lookups takes anything from that.
theorem after (h : r.Settled H registrations generate) {history : List Lookup}
    (hhistory : ∀ lookup ∈ history, H.known lookup.cls) :
    (r.after history).Settled H registrations generate := by
  induction history generalizing r with
  | nil => exact h
  | cons lookup rest ih =>
      obtain ⟨hlookup, hrest⟩ := List.forall_mem_cons.mp hhistory
      exact ih (h.look hlookup) hrest

end Settled

end Resolvers

end Stencil
