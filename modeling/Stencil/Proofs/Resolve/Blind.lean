import Stencil.Proofs.Run.Mirror
import Stencil.Proofs.Value.Rebody

namespace Stencil

def Store.rebody (edit : List Stmt → List Stmt) (s : Store) : Store :=
  { s with heap := s.heap.rebody edit }

def Store.Blind (s : Store) : Prop := s.heap.Blind

-- Strategies of the host are blind to bodies, and leave only objects that are.
def Getter.Blind : Getter → Prop
  | .fieldTable cls => cls.Blind
  | .custom run => ∀ edit target key, Mirrors Store.Blind (Store.rebody edit) (Value.rebody edit)
      (run target key) (run (target.rebody edit) (key.rebody edit))
  | _ => True

def Setter.Blind : Setter → Prop
  | .fieldTable cls => cls.Blind
  | .custom run => ∀ edit target key v, Mirrors Store.Blind (Store.rebody edit) id
      (run target key v) (run (target.rebody edit) (key.rebody edit) (v.rebody edit))
  | _ => True

def Serializer.Blind : Serializer → Prop
  | .custom run => ∀ edit v encoding, Mirrors Store.Blind (Store.rebody edit) id
      (run v encoding) (run (v.rebody edit) encoding)
  | _ => True

-- Every strategy of a tier has the property.
structure Tier.All (P : R → Prop) (t : Tier R) : Prop where
  settled : ∀ entry ∈ t.settled, P entry.2
  assignable : ∀ entry ∈ t.assignable, P entry.2

structure Resolvers.Blind (r : Resolvers) : Prop where
  getters : r.getters.All Getter.Blind
  setters : r.setters.All Setter.Blind
  serializers : r.serializers.All Serializer.Blind
  accessors : ∀ cache, r.accessors = some cache → ∀ entry ∈ cache, entry.2.cls.Blind

def Offer.Blind (o : Offer) : Prop :=
  (∀ g, o.getter = some g → g.Blind) ∧ (∀ s, o.setter = some s → s.Blind) ∧
    ∀ s, o.serializer = some s → s.Blind

mutual

def Registration.Blind : Registration → Prop
  | .exact _ offer => offer.Blind
  | .assignable _ offer => offer.Blind
  | .delegating entries => Registration.AllBlind entries

def Registration.AllBlind : List Registration → Prop
  | [] => True
  | entry :: rest => entry.Blind ∧ Registration.AllBlind rest

end

theorem mem_of_lookup [BEq K] [LawfulBEq K] {key : K} {entries : List (K × V)} {v : V}
    (h : entries.lookup key = some v) : (key, v) ∈ entries := by
  obtain ⟨before, behind, rfl, -⟩ := List.lookup_eq_some_iff.mp h
  simp

namespace Tier

variable {P : R → Prop} {t : Tier R}

theorem All.empty : (Tier.empty : Tier R).All P where
  settled := by simp [Tier.empty]
  assignable := by simp [Tier.empty]

theorem All.find? (ht : t.All P) {cls : Class} {strategy : R} (h : t.find? cls = some strategy) :
    P strategy :=
  ht.settled _ (mem_of_lookup h)

theorem All.findAssignable? (ht : t.All P) {cls : Class} {strategy : R}
    (h : t.findAssignable? cls = some strategy) : P strategy := by
  obtain ⟨entry, hentry, rfl⟩ := Option.map_eq_some_iff.mp h
  exact ht.assignable entry (List.mem_of_find?_eq_some hentry)

theorem All.settle (ht : t.All P) (cls : Class) {strategy : R} (h : P strategy) :
    (t.settle cls strategy).All P := by
  rw [Tier.settle]
  split
  · exact ht
  · refine ⟨?_, ht.assignable⟩
    intro entry hentry
    rcases List.mem_cons.mp hentry with rfl | hentry
    · exact h
    · exact ht.settled entry hentry

theorem All.addExact (ht : t.All P) (cls : Class) {offer : Option R}
    (h : ∀ s, offer = some s → P s) : (t.addExact cls offer).All P := by
  cases offer with
  | none => exact ht
  | some strategy => exact ht.settle cls (h strategy rfl)

theorem All.addAssignable (ht : t.All P) (cls : Class) {offer : Option R}
    (h : ∀ s, offer = some s → P s) : (t.addAssignable cls offer).All P := by
  cases offer with
  | none => exact ht
  | some strategy =>
      refine ⟨ht.settled, ?_⟩
      intro entry hentry
      rcases List.mem_append.mp hentry with hentry | hentry
      · exact ht.assignable entry hentry
      · rw [List.mem_singleton.mp hentry]
        exact h strategy rfl

end Tier

namespace Resolvers

variable {r : Resolvers} {cls : Class}

theorem Blind.empty (generateAccessors : Bool) : (Resolvers.empty generateAccessors).Blind := by
  refine ⟨.empty, .empty, .empty, ?_⟩
  intro cache hcache
  cases generateAccessors with
  | false => cases hcache
  | true =>
      cases hcache
      simp

theorem Blind.addExact (hr : r.Blind) (cls : Class) {offer : Offer} (h : offer.Blind) :
    (r.addExact cls offer).Blind :=
  ⟨hr.getters.addExact cls h.1, hr.setters.addExact cls h.2.1,
    hr.serializers.addExact cls h.2.2, hr.accessors⟩

theorem Blind.addAssignable (hr : r.Blind) (cls : Class) {offer : Offer} (h : offer.Blind) :
    (r.addAssignable cls offer).Blind :=
  ⟨hr.getters.addAssignable cls h.1, hr.setters.addAssignable cls h.2.1,
    hr.serializers.addAssignable cls h.2.2, hr.accessors⟩

mutual

theorem Blind.register {r : Resolvers} (hr : r.Blind) (entry : Registration) (h : entry.Blind) :
    (r.register entry).Blind := by
  cases entry with
  | exact cls offer =>
      rw [Resolvers.register]
      exact hr.addExact cls h
  | assignable cls offer =>
      rw [Resolvers.register]
      exact hr.addAssignable cls h
  | delegating entries =>
      rw [Resolvers.register]
      rw [Registration.Blind] at h
      exact Blind.registerAll hr entries h

theorem Blind.registerAll {r : Resolvers} (hr : r.Blind) (entries : List Registration)
    (h : Registration.AllBlind entries) : (r.registerAll entries).Blind := by
  cases entries with
  | nil =>
      rw [Resolvers.registerAll]
      exact hr
  | cons entry rest =>
      rw [Resolvers.registerAll]
      rw [Registration.AllBlind] at h
      exact Blind.registerAll (Blind.register hr entry h.1) rest h.2

end

theorem defaults_blind : defaults.Blind := by
  simp [defaults, Registration.Blind, Registration.AllBlind, Offer.Blind, Getter.Blind,
    Setter.Blind, Serializer.Blind]

-- A run that starts from what a host registered sees only what it registered.
theorem Blind.withDefaults {registrations : List Registration}
    (h : Registration.AllBlind registrations) (generateAccessors : Bool) :
    (Resolvers.withDefaults registrations generateAccessors).Blind := by
  refine Blind.registerAll (.empty generateAccessors) _ ?_
  rw [Registration.AllBlind]
  exact ⟨defaults_blind, h⟩

theorem Blind.setAccessors (hr : r.Blind) {cache : AccessorCache}
    (h : ∀ entry ∈ cache, entry.2.cls.Blind) : { r with accessors := some cache }.Blind := by
  refine ⟨hr.getters, hr.setters, hr.serializers, ?_⟩
  intro other hother
  obtain rfl := Option.some.inj hother
  exact h

-- An accessor made for a class answers for that class, and is kept.
theorem find_blind {cache : AccessorCache} (h : ∀ entry ∈ cache, entry.2.cls.Blind)
    (hcls : cls.Blind) :
    (∀ accessor, (cache.find cls).1 = some accessor → accessor.cls.Blind) ∧
      ∀ entry ∈ (cache.find cls).2, entry.2.cls.Blind := by
  rw [AccessorCache.find]
  split
  · rename_i accessor hfound
    refine ⟨?_, h⟩
    intro other hother
    obtain rfl := Option.some.inj hother
    exact h _ (mem_of_lookup hfound)
  · rw [Accessor.generate]
    by_cases hfields : cls.fields.isEmpty
    · rw [if_pos hfields]
      refine ⟨?_, h⟩
      intro other hother
      cases hother
    · rw [if_neg hfields]
      constructor
      · intro other hother
        obtain rfl := Option.some.inj hother
        exact hcls
      · intro entry hentry
        rcases List.mem_cons.mp hentry with rfl | hentry
        · exact hcls
        · exact h entry hentry

theorem Blind.accessor (hr : r.Blind) (hcls : cls.Blind) :
    (∀ accessor, (r.accessor cls).1 = some accessor → accessor.cls.Blind) ∧
      (r.accessor cls).2.Blind := by
  rw [Resolvers.accessor]
  cases hcache : r.accessors with
  | none =>
      refine ⟨?_, hr⟩
      intro accessor haccessor
      cases haccessor
  | some cache =>
      obtain ⟨hfound, hkept⟩ := find_blind (hr.accessors cache hcache) hcls
      exact ⟨hfound, hr.setAccessors hkept⟩

theorem Blind.chooseGetter (hr : r.Blind) (hcls : cls.Blind) :
    (r.chooseGetter cls).1.Blind ∧ (r.chooseGetter cls).2.Blind := by
  obtain ⟨haccessor, hresolvers⟩ := hr.accessor hcls
  rw [Resolvers.chooseGetter]
  split
  · rename_i getter hfound
    exact ⟨hr.getters.find? hfound, hr⟩
  · split
    rename_i getter kept hpick
    have hpicked : getter.Blind ∧ kept.Blind := by
      split at hpick
      · rename_i hfound
        cases hpick
        exact ⟨hr.getters.findAssignable? hfound, hr⟩
      · split at hpick
        · rename_i accessor _ hmade
          cases hpick
          rw [hmade] at haccessor hresolvers
          exact ⟨haccessor accessor rfl, hresolvers⟩
        · rename_i hmade
          cases hpick
          rw [hmade] at hresolvers
          exact ⟨trivial, hresolvers⟩
    obtain ⟨hgetter, hkept⟩ := hpicked
    exact ⟨hgetter, hkept.getters.settle cls hgetter, hkept.setters, hkept.serializers,
      hkept.accessors⟩

theorem Blind.chooseSetter (hr : r.Blind) (hcls : cls.Blind) :
    (r.chooseSetter cls).1.Blind ∧ (r.chooseSetter cls).2.Blind := by
  obtain ⟨haccessor, hresolvers⟩ := hr.accessor hcls
  rw [Resolvers.chooseSetter]
  split
  · rename_i setter hfound
    exact ⟨hr.setters.find? hfound, hr⟩
  · split
    rename_i setter kept hpick
    have hpicked : setter.Blind ∧ kept.Blind := by
      split at hpick
      · rename_i hfound
        cases hpick
        exact ⟨hr.setters.findAssignable? hfound, hr⟩
      · split at hpick
        · rename_i accessor _ hmade
          cases hpick
          rw [hmade] at haccessor hresolvers
          exact ⟨haccessor accessor rfl, hresolvers⟩
        · rename_i hmade
          cases hpick
          rw [hmade] at hresolvers
          exact ⟨trivial, hresolvers⟩
    obtain ⟨hsetter, hkept⟩ := hpicked
    exact ⟨hsetter, hkept.getters, hkept.setters.settle cls hsetter, hkept.serializers,
      hkept.accessors⟩

theorem Blind.chooseSerializer (hr : r.Blind) (cls : Class) :
    (r.chooseSerializer cls).1.Blind ∧ (r.chooseSerializer cls).2.Blind := by
  rw [Resolvers.chooseSerializer]
  split
  · rename_i serializer hfound
    exact ⟨hr.serializers.find? hfound, hr⟩
  · have hserializer : ((r.serializers.findAssignable? cls).getD .common).Blind := by
      cases hfound : r.serializers.findAssignable? cls with
      | none => trivial
      | some serializer => exact hr.serializers.findAssignable? hfound
    exact ⟨hserializer, hr.getters, hr.setters, hr.serializers.settle cls hserializer,
      hr.accessors⟩

end Resolvers

namespace Resolve

variable {edit : List Stmt → List Stmt} {h : Heap}

-- A property that is not there is reported by the type of the target and the text of the key.
theorem noSuchProperty_rebody (hh : h.Blind) (target key : Value) :
    (.error (noSuchProperty (h.rebody edit) (target.rebody edit) (key.rebody edit)) :
      Except Fault Value) =
      (Except.error (noSuchProperty h target key)).map (Value.rebody edit) := by
  simp only [noSuchProperty, Value.typeName_rebody, Value.display_rebody hh, Except.map]

theorem readList_rebody (hh : h.Blind) (target key : Value) :
    readList (h.rebody edit) (target.rebody edit) (key.rebody edit) =
      (readList h target key).map (Value.rebody edit) := by
  cases target with
  | list ref =>
      cases key with
      | int index =>
          change readList (h.rebody edit) (.list ref) (.int index) = _
          simp only [readList, Heap.items_rebody, List.length_map]
          cases checkedIndex index (h.items ref).length with
          | error fault => rfl
          | ok i =>
              change Except.ok _ = Except.ok _
              simp only [List.getD_eq_getElem?_getD, List.getElem?_map]
              cases (h.items ref)[i]? <;> rfl
      | str name =>
          change readList (h.rebody edit) (.list ref) (.str name) = _
          simp only [readList, Heap.items_rebody, List.length_map, List.isEmpty_map]
          split
          · rfl
          · split
            · rfl
            · exact noSuchProperty_rebody hh (.list ref) (.str name)
      | _ => exact noSuchProperty_rebody hh _ _
  | _ => exact noSuchProperty_rebody hh _ key

theorem readMap_rebody (hh : h.Blind) (target key : Value) :
    readMap (h.rebody edit) (target.rebody edit) (key.rebody edit) =
      (readMap h target key).map (Value.rebody edit) := by
  cases target with
  | map ref =>
      simp only [Value.rebody_map, readMap, mapKey, Heap.entries_rebody, Value.display_rebody hh,
        Heap.lookup_rebody, Except.map]
      cases (h.entries ref).lookup (key.display h) <;> rfl
  | _ => exact noSuchProperty_rebody hh _ key

theorem readString_rebody (hh : h.Blind) (target key : Value) :
    readString (h.rebody edit) (target.rebody edit) (key.rebody edit) =
      (readString h target key).map (Value.rebody edit) := by
  cases target with
  | str text =>
      cases key with
      | int index =>
          change readString (h.rebody edit) (.str text) (.int index) = _
          simp only [readString]
          cases checkedIndex index text.length with
          | error fault => rfl
          | ok i =>
              change Except.ok _ = Except.ok _
              cases text.toList[i]? <;> rfl
      | str name =>
          change readString (h.rebody edit) (.str text) (.str name) = _
          simp only [readString]
          split
          · rfl
          · split
            · rfl
            · exact noSuchProperty_rebody hh (.str text) (.str name)
      | _ => exact noSuchProperty_rebody hh _ _
  | _ => exact noSuchProperty_rebody hh _ key

theorem readBytes_rebody (hh : h.Blind) (target key : Value) :
    readBytes (h.rebody edit) (target.rebody edit) (key.rebody edit) =
      (readBytes h target key).map (Value.rebody edit) := by
  cases target with
  | bytes bs =>
      cases key with
      | int index =>
          change readBytes (h.rebody edit) (.bytes bs) (.int index) = _
          simp only [readBytes]
          cases checkedIndex index bs.length with
          | error fault => rfl
          | ok i =>
              change Except.ok _ = Except.ok _
              cases bs[i]? <;> rfl
      | str name =>
          change readBytes (h.rebody edit) (.bytes bs) (.str name) = _
          simp only [readBytes]
          split
          · rfl
          · exact noSuchProperty_rebody hh (.bytes bs) (.str name)
      | _ => exact noSuchProperty_rebody hh _ _
  | _ => exact noSuchProperty_rebody hh _ key

theorem readRange_rebody (hh : h.Blind) (target key : Value) :
    readRange (h.rebody edit) (target.rebody edit) (key.rebody edit) =
      (readRange h target key).map (Value.rebody edit) := by
  cases target with
  | range first last =>
      cases key with
      | str name =>
          change readRange (h.rebody edit) (.range first last) (.str name) = _
          simp only [readRange]
          split
          · rfl
          · split
            · rfl
            · split
              · rfl
              · exact noSuchProperty_rebody hh (.range first last) (.str name)
      | _ => exact noSuchProperty_rebody hh _ _
  | _ => exact noSuchProperty_rebody hh _ key

theorem scanField?_blind {cls : Class} (hcls : cls.Blind) {key : Value} {field : Field}
    (hfield : scanField? cls key = some field) : field.Blind := by
  obtain ⟨name, -, hfound⟩ := Option.bind_eq_some_iff.mp hfield
  exact hcls field (List.mem_of_find?_eq_some hfound)

theorem indexedField?_blind {cls : Class} (hcls : cls.Blind) {key : Value} {field : Field}
    (hfield : indexedField? cls key = some field) : field.Blind := by
  obtain ⟨name, -, hfound⟩ := Option.bind_eq_some_iff.mp hfield
  exact hcls field (List.mem_reverse.mp (List.mem_of_find?_eq_some hfound))

theorem scanField?_rebody (cls : Class) (key : Value) :
    scanField? cls (key.rebody edit) = scanField? cls key := by
  simp only [scanField?, Value.str?_rebody]

theorem indexedField?_rebody (cls : Class) (key : Value) :
    indexedField? cls (key.rebody edit) = indexedField? cls key := by
  simp only [indexedField?, Value.str?_rebody]

theorem readField_rebody {field : Option Field} (hfield : ∀ f, field = some f → f.Blind)
    (target : Value) :
    readField (h.rebody edit) field (target.rebody edit) =
      (readField h field target).map (Value.rebody edit) := by
  cases target with
  | host ref =>
      simp only [Value.rebody_host, readField, Heap.hosts_rebody]
      cases h.hosts[ref]? with
      | none => rfl
      | some object =>
          cases field with
          | none => rfl
          | some f => exact (hfield f rfl).read edit object.state
  | _ => rfl

theorem writeField_rebody {field : Option Field} (hfield : ∀ f, field = some f → f.Blind)
    (target v : Value) :
    writeField (h.rebody edit) field (target.rebody edit) (v.rebody edit) =
      (writeField h field target v).map (Heap.rebody edit) := by
  cases target with
  | host ref =>
      simp only [Value.rebody_host, writeField, Heap.hosts_rebody]
      cases h.hosts[ref]? with
      | none => rfl
      | some object =>
          cases field with
          | none => rfl
          | some f =>
              simp only [Option.map_some, Option.bind_some]
              cases hwrite : f.write with
              | none => rfl
              | some write =>
                  have hstate := (hfield f rfl).write write hwrite edit object.state v
                  simp only [Option.bind_some, HostObject.rebody, hstate, Option.map_map]
                  congr 1
                  funext state
                  exact Heap.setState_rebody ref state
  | _ => rfl

theorem writeField_blind (hh : h.Blind) {field : Option Field} {target v : Value} {h' : Heap}
    (hwrite : writeField h field target v = some h') : h'.Blind := by
  cases target with
  | host ref =>
      simp only [writeField, Option.bind_eq_some_iff, Option.map_eq_some_iff] at hwrite
      obtain ⟨object, -, write, -, state, -, rfl⟩ := hwrite
      exact hh.setState ref state
  | _ => cases hwrite

-- Classes of built-in kinds have no fields.
theorem cls_blind (hh : h.Blind) (v : Value) : (v.cls h).Blind := by
  cases v with
  | host ref =>
      simp only [Value.cls]
      cases hobject : h.hosts[ref]? with
      | none => simp [Class.Blind, Class.any, Class.fields]
      | some object => exact (hh.getElem? hobject).cls
  | _ => exact fun f hf => by cases hf

theorem readCommon_rebody (hh : h.Blind) (target key : Value) :
    readCommon (h.rebody edit) (target.rebody edit) (key.rebody edit) =
      (readCommon h target key).map (Value.rebody edit) := by
  have hfields : ∀ f, scanField? (target.cls h) key = some f → f.Blind :=
    fun _ => scanField?_blind (cls_blind hh target)
  simp only [readCommon, Value.cls_rebody, scanField?_rebody, readField_rebody hfields]
  cases readField h (scanField? (target.cls h) key) target with
  | none => exact noSuchProperty_rebody hh target key
  | some v => rfl

theorem readIndexed_rebody (hh : h.Blind) {cls : Class} (hcls : cls.Blind) (target key : Value) :
    readIndexed (h.rebody edit) cls (target.rebody edit) (key.rebody edit) =
      (readIndexed h cls target key).map (Value.rebody edit) := by
  have hfields : ∀ f, indexedField? cls key = some f → f.Blind :=
    fun _ => indexedField?_blind hcls
  simp only [readIndexed, indexedField?_rebody, readField_rebody hfields, Value.display_rebody hh]
  cases readField h (indexedField? cls key) target <;> rfl

theorem writeList_rebody (target key v : Value) :
    writeList (h.rebody edit) (target.rebody edit) (key.rebody edit) (v.rebody edit) =
      (writeList h target key v).map (Option.map (Heap.rebody edit)) := by
  cases target with
  | list ref =>
      cases key with
      | int index =>
          change writeList (h.rebody edit) (.list ref) (.int index) _ = _
          simp only [writeList, Heap.items_rebody, List.length_map]
          cases checkedIndex index (h.items ref).length with
          | error fault => rfl
          | ok i =>
              change Except.ok (some _) = Except.ok (some _)
              rw [← List.map_set, Heap.setItems_rebody]
      | _ => rfl
  | _ => rfl

-- Writing to a list or a map leaves the objects of the host alone.
theorem writeList_blind (hh : h.Blind) {target key v : Value} {h' : Heap}
    (hwrite : writeList h target key v = .ok (some h')) : h'.Blind := by
  cases target with
  | list ref =>
      cases key with
      | int index =>
          simp only [writeList] at hwrite
          cases hi : checkedIndex index (h.items ref).length with
          | error fault => rw [hi] at hwrite; cases hwrite
          | ok i =>
              rw [hi] at hwrite
              cases hwrite
              exact hh
      | _ => cases hwrite
  | _ => cases hwrite

theorem writeMap_rebody (hh : h.Blind) (target key v : Value) :
    writeMap (h.rebody edit) (target.rebody edit) (key.rebody edit) (v.rebody edit) =
      (writeMap h target key v).map (Heap.rebody edit) := by
  cases target with
  | map ref =>
      simp only [Value.rebody_map, writeMap, mapKey, Value.display_rebody hh, Heap.entries_rebody,
        Heap.putEntry_rebody, Heap.setEntries_rebody, Option.map_some]
  | _ => rfl

theorem writeMap_blind (hh : h.Blind) {target key v : Value} {h' : Heap}
    (hwrite : writeMap h target key v = some h') : h'.Blind := by
  cases target with
  | map ref =>
      cases hwrite
      exact hh
  | _ => cases hwrite

end Resolve

end Stencil
