import Stencil.Proofs.Resolve.Blind

namespace Stencil

-- What may be known of the strategies and classes of a host. The common strategies need no host,
-- and accessors are as good as the classes that they are made for.
structure Kinds where
  getter : Getter → Prop
  setter : Setter → Prop
  serializer : Serializer → Prop
  cls : Class → Prop
  commonGetter : getter .common
  commonSetter : setter .common
  commonSerializer : serializer .common
  tableGetter : ∀ {c}, cls c → getter (.fieldTable c)
  tableSetter : ∀ {c}, cls c → setter (.fieldTable c)

structure Resolvers.Of (K : Kinds) (r : Resolvers) : Prop where
  getters : r.getters.All K.getter
  setters : r.setters.All K.setter
  serializers : r.serializers.All K.serializer
  accessors : ∀ cache, r.accessors = some cache → ∀ entry ∈ cache, K.cls entry.2.cls

namespace Resolvers

variable {K : Kinds} {r : Resolvers} {cls : Class}

-- An accessor made for a class answers for that class, and is kept.
theorem find_of {cache : AccessorCache} (h : ∀ entry ∈ cache, K.cls entry.2.cls)
    (hcls : K.cls cls) :
    (∀ accessor, (cache.find cls).1 = some accessor → K.cls accessor.cls) ∧
      ∀ entry ∈ (cache.find cls).2, K.cls entry.2.cls := by
  unfold AccessorCache.find
  split
  · rename_i accessor hfound
    refine ⟨?_, h⟩
    rintro other ⟨⟩
    exact h _ (mem_of_lookup hfound)
  · unfold Accessor.generate
    split
    · rename_i accessor hmade
      split at hmade
      · cases hmade
      · cases hmade
        refine ⟨by rintro other ⟨⟩; exact hcls, ?_⟩
        intro entry hentry
        rcases List.mem_cons.mp hentry with rfl | hentry
        · exact hcls
        · exact h entry hentry
    · refine ⟨?_, h⟩
      rintro other ⟨⟩

theorem Of.accessor (hr : r.Of K) (hcls : K.cls cls) :
    (∀ accessor, (r.accessor cls).1 = some accessor → K.cls accessor.cls) ∧
      (r.accessor cls).2.Of K := by
  unfold Resolvers.accessor
  split
  · rename_i cache hcache
    obtain ⟨hfound, hkept⟩ := find_of (hr.accessors cache hcache) hcls
    refine ⟨hfound, hr.getters, hr.setters, hr.serializers, ?_⟩
    rintro other ⟨⟩
    exact hkept
  · refine ⟨?_, hr⟩
    rintro other ⟨⟩

theorem Of.chooseGetter (hr : r.Of K) (hcls : K.cls cls) :
    K.getter (r.chooseGetter cls).1 ∧ (r.chooseGetter cls).2.Of K := by
  obtain ⟨haccessor, hresolvers⟩ := hr.accessor hcls
  unfold Resolvers.chooseGetter
  split
  · rename_i getter hfound
    exact ⟨hr.getters.find? hfound, hr⟩
  · have hpicked : ∀ {getter kept}, K.getter getter → Resolvers.Of K kept →
        K.getter getter ∧ { kept with getters := kept.getters.settle cls getter }.Of K :=
      fun hgetter hkept => ⟨hgetter, hkept.getters.settle cls hgetter, hkept.setters,
        hkept.serializers, hkept.accessors⟩
    split
    rename_i getter kept hpick
    split at hpick
    · rename_i hfound
      cases hpick
      exact hpicked (hr.getters.findAssignable? hfound) hr
    · split at hpick
      · rename_i accessor _ hmade
        cases hpick
        rw [hmade] at haccessor hresolvers
        exact hpicked (K.tableGetter (haccessor accessor rfl)) hresolvers
      · rename_i hmade
        cases hpick
        rw [hmade] at hresolvers
        exact hpicked K.commonGetter hresolvers

theorem Of.chooseSetter (hr : r.Of K) (hcls : K.cls cls) :
    K.setter (r.chooseSetter cls).1 ∧ (r.chooseSetter cls).2.Of K := by
  obtain ⟨haccessor, hresolvers⟩ := hr.accessor hcls
  unfold Resolvers.chooseSetter
  split
  · rename_i setter hfound
    exact ⟨hr.setters.find? hfound, hr⟩
  · have hpicked : ∀ {setter kept}, K.setter setter → Resolvers.Of K kept →
        K.setter setter ∧ { kept with setters := kept.setters.settle cls setter }.Of K :=
      fun hsetter hkept => ⟨hsetter, hkept.getters, hkept.setters.settle cls hsetter,
        hkept.serializers, hkept.accessors⟩
    split
    rename_i setter kept hpick
    split at hpick
    · rename_i hfound
      cases hpick
      exact hpicked (hr.setters.findAssignable? hfound) hr
    · split at hpick
      · rename_i accessor _ hmade
        cases hpick
        rw [hmade] at haccessor hresolvers
        exact hpicked (K.tableSetter (haccessor accessor rfl)) hresolvers
      · rename_i hmade
        cases hpick
        rw [hmade] at hresolvers
        exact hpicked K.commonSetter hresolvers

theorem Of.chooseSerializer (hr : r.Of K) (cls : Class) :
    K.serializer (r.chooseSerializer cls).1 ∧ (r.chooseSerializer cls).2.Of K := by
  unfold Resolvers.chooseSerializer
  split
  · rename_i serializer hfound
    exact ⟨hr.serializers.find? hfound, hr⟩
  · have hserializer : K.serializer ((r.serializers.findAssignable? cls).getD .common) := by
      cases hfound : r.serializers.findAssignable? cls with
      | none => exact K.commonSerializer
      | some serializer => exact hr.serializers.findAssignable? hfound
    exact ⟨hserializer, hr.getters, hr.setters, hr.serializers.settle cls hserializer,
      hr.accessors⟩

end Resolvers

-- What is known of the strategies that a host registers.
structure Offer.Of (K : Kinds) (o : Offer) : Prop where
  getter : ∀ g, o.getter = some g → K.getter g
  setter : ∀ s, o.setter = some s → K.setter s
  serializer : ∀ s, o.serializer = some s → K.serializer s

mutual

def Registration.Of (K : Kinds) : Registration → Prop
  | .exact _ offer => offer.Of K
  | .assignable _ offer => offer.Of K
  | .delegating entries => Registration.AllOf K entries

def Registration.AllOf (K : Kinds) : List Registration → Prop
  | [] => True
  | entry :: rest => entry.Of K ∧ Registration.AllOf K rest

end

namespace Resolvers

variable {K : Kinds}

mutual

theorem Of.register {r : Resolvers} (hr : r.Of K) (entry : Registration) (h : entry.Of K) :
    (r.register entry).Of K := by
  cases entry with
  | exact cls offer =>
      rw [Resolvers.register]
      rw [Registration.Of] at h
      exact ⟨hr.getters.addExact cls h.getter, hr.setters.addExact cls h.setter,
        hr.serializers.addExact cls h.serializer, hr.accessors⟩
  | assignable cls offer =>
      rw [Resolvers.register]
      rw [Registration.Of] at h
      exact ⟨hr.getters.addAssignable cls h.getter, hr.setters.addAssignable cls h.setter,
        hr.serializers.addAssignable cls h.serializer, hr.accessors⟩
  | delegating entries =>
      rw [Resolvers.register]
      rw [Registration.Of] at h
      exact Of.registerAll hr entries h

theorem Of.registerAll {r : Resolvers} (hr : r.Of K) (entries : List Registration)
    (h : Registration.AllOf K entries) : (r.registerAll entries).Of K := by
  cases entries with
  | nil =>
      rw [Resolvers.registerAll]
      exact hr
  | cons entry rest =>
      rw [Resolvers.registerAll]
      rw [Registration.AllOf] at h
      exact Of.registerAll (Of.register hr entry h.1) rest h.2

end

theorem Of.empty (generateAccessors : Bool) : (Resolvers.empty generateAccessors).Of K := by
  refine ⟨.empty, .empty, .empty, ?_⟩
  intro cache hcache
  cases generateAccessors with
  | false => cases hcache
  | true =>
      cases hcache
      simp

-- A host that registers only such strategies has only such strategies, if the built-in ones are
-- of the kind.
theorem Of.withDefaults (hdefaults : defaults.Of K) {registrations : List Registration}
    (h : Registration.AllOf K registrations) (generateAccessors : Bool) :
    (Resolvers.withDefaults registrations generateAccessors).Of K := by
  refine Of.registerAll (.empty generateAccessors) _ ?_
  rw [Registration.AllOf]
  exact ⟨hdefaults, h⟩

end Resolvers

end Stencil
