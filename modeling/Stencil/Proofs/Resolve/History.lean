import Stencil.Proofs.Resolve.Choice
import Stencil.Proofs.Run.Together
import Mathlib.Data.List.Nodup

namespace Stencil

def Serializer.Keeps (known : Class → Prop) : Serializer → Prop
  | .custom run =>
    ∀ v encoding store, store.heap.Of known → (run v encoding store).2.heap.Of known
  | _ => True

structure Offer.Keeps (known : Class → Prop) (o : Offer) : Prop where
  getter : ∀ g, o.getter = some g → g.Keeps known
  setter : ∀ s, o.setter = some s → s.Keeps known
  serializer : ∀ s, o.serializer = some s → s.Keeps known

theorem Offer.Keeps.of_setter {known : Class → Prop} {setter : Setter} (h : setter.Keeps known) :
    Offer.Keeps known { setter := some setter } where
  getter := by
    intro getter hgetter
    cases hgetter
  setter := by
    intro other hother
    cases hother
    exact h
  serializer := by
    intro serializer hserializer
    cases hserializer

namespace Registration

def offer? : Registration → Option Offer
  | .exact _ offer => some offer
  | .assignable _ offer => some offer
  | .delegating _ => none

-- All strategies that the registrations come to leave only objects of known classes.
def AllKeep (known : Class → Prop) (registrations : List Registration) : Prop :=
  ∀ entry ∈ flattenAll registrations, ∀ offer, entry.offer? = some offer → offer.Keeps known

-- The strategies that are there for the kinds of values.
theorem of_mem_defaults {G : Getter → Prop} {S : Setter → Prop} {B : Serializer → Prop}
    (hgetter : G .list ∧ G .map ∧ G .string ∧ G .bytes ∧ G .range ∧ G .iter)
    (hsetter : S .list ∧ S .map) (hserializer : B .string) {entry : Registration} {offer : Offer}
    (hentry : entry ∈ Resolvers.defaults.flatten) (hoffer : entry.offer? = some offer) :
    (∀ g, offer.getter = some g → G g) ∧ (∀ s, offer.setter = some s → S s) ∧
      ∀ s, offer.serializer = some s → B s := by
  obtain ⟨hlist, hmap, hstring, hbytes, hrange, hiter⟩ := hgetter
  simp only [Resolvers.defaults, flatten, flattenAll, List.singleton_append, List.mem_cons,
    List.not_mem_nil, or_false, List.append_nil] at hentry
  obtain rfl | rfl | rfl | rfl | rfl | rfl := hentry <;> cases hoffer <;>
    refine ⟨?_, ?_, ?_⟩ <;> rintro _ ⟨⟩
  · exact hlist
  · exact hsetter.1
  · exact hmap
  · exact hsetter.2
  · exact hstring
  · exact hserializer
  · exact hbytes
  · exact hrange
  · exact hiter

theorem AllKeep.withDefaults {known : Class → Prop} {registrations : List Registration}
    (h : AllKeep known registrations) : AllKeep known (Resolvers.defaults :: registrations) := by
  intro entry hentry offer hoffer
  rcases List.mem_append.mp hentry with hdefault | hentry
  · obtain ⟨hgetter, hsetter, hserializer⟩ := of_mem_defaults (G := Getter.Keeps known)
      (S := Setter.Keeps known) (B := Serializer.Keeps known)
      ⟨trivial, trivial, trivial, trivial, trivial, trivial⟩ ⟨trivial, trivial⟩ trivial hdefault
      hoffer
    exact ⟨hgetter, hsetter, hserializer⟩
  · exact h entry hentry offer hoffer

variable {pick : Offer → Option R} {registrations : List Registration} {cls : Class} {strategy : R}

theorem exists_offer (h : (firstExact pick registrations cls).or
      (firstAssignable pick registrations cls) = some strategy) :
    ∃ entry ∈ flattenAll registrations, ∃ offer, entry.offer? = some offer ∧
      pick offer = some strategy := by
  rcases Option.or_eq_some_iff.mp h with hfound | ⟨-, hfound⟩
  · obtain ⟨entry, hentry, hpicked⟩ := List.exists_of_findSome?_eq_some hfound
    refine ⟨entry, hentry, ?_⟩
    cases entry with
    | exact owner offer =>
        rw [exactFor] at hpicked
        split at hpicked
        · exact ⟨offer, by rfl, hpicked⟩
        · cases hpicked
    | _ => cases hpicked
  · obtain ⟨entry, hentry, hpicked⟩ := List.exists_of_findSome?_eq_some hfound
    refine ⟨entry, hentry, ?_⟩
    cases entry with
    | assignable owner offer =>
        rw [assignableFor] at hpicked
        split at hpicked
        · exact ⟨offer, by rfl, hpicked⟩
        · cases hpicked
    | _ => cases hpicked

-- A strategy is one that is offered, or the one there is otherwise.
theorem strategyFor_property {P : R → Prop} {otherwise : R} (hotherwise : P otherwise)
    (hoffers : ∀ entry ∈ flattenAll registrations, ∀ offer, entry.offer? = some offer →
      ∀ strategy, pick offer = some strategy → P strategy) :
    P (strategyFor pick registrations cls otherwise) := by
  unfold strategyFor
  cases hfound : (firstExact pick registrations cls).or
      (firstAssignable pick registrations cls) with
  | none => exact hotherwise
  | some strategy =>
      obtain ⟨entry, hentry, offer, hoffer, hpicked⟩ := exists_offer hfound
      exact hoffers entry hentry offer hoffer strategy hpicked

namespace AllKeep

variable {known : Class → Prop}

theorem getterFor (h : AllKeep known registrations) (generate : Bool) (cls : Class) :
    (getterFor registrations generate cls).Keeps known := by
  apply strategyFor_property
  · split
    · trivial
    · trivial
  · exact fun entry hentry offer hoffer => (h entry hentry offer hoffer).getter

theorem setterFor (h : AllKeep known registrations) (generate : Bool) (cls : Class) :
    (setterFor registrations generate cls).Keeps known := by
  apply strategyFor_property
  · split
    · trivial
    · trivial
  · exact fun entry hentry offer hoffer => (h entry hentry offer hoffer).setter

theorem serializerFor (h : AllKeep known registrations) (cls : Class) :
    (serializerFor registrations cls).Keeps known := by
  apply strategyFor_property
  · trivial
  · exact fun entry hentry offer hoffer => (h entry hentry offer hoffer).serializer

end AllKeep

end Registration

open Registration

namespace Run

open Resolve WorldM
open World (Abreast)

variable {known : Class → Prop} {S : Resolvers → Resolvers → Prop} {O : Sink → Sink → Prop}

theorem serializeWith_lockstep {serializer : Serializer} (hserializer : serializer.Keeps known)
    (v : Value) (encoding : String) :
    Lockstep (Abreast known S O) (serializeWith serializer v encoding)
      (serializeWith serializer v encoding) := by
  have hplain : Lockstep (Abreast known S O)
      (do
        let encoding ← WorldM.ofExcept (Encoding.ofName encoding)
        return encoding.encode (v.display (← WorldM.heap)))
      (do
        let encoding ← WorldM.ofExcept (Encoding.ofName encoding)
        return encoding.encode (v.display (← WorldM.heap))) := by
    refine .bind_same (lockstep_ofExcept _) fun found => ?_
    exact lockstep_heap_bind fun heap _ => lockstep_pure _
  cases serializer with
  | common => exact hplain
  | string => exact hplain
  | custom run => exact lockstep_onStore (hserializer v encoding)

theorem toBytes_lockstep (hbuiltin : ∀ cls ∈ Class.builtin, known cls)
    (hpick : ∀ {r r' cls}, S r r' → known cls →
      (r'.chooseSerializer cls).1 = (r.chooseSerializer cls).1 ∧
        S (r.chooseSerializer cls).2 (r'.chooseSerializer cls).2 ∧
        (r.chooseSerializer cls).1.Keeps known) (v : Value) (encoding : String) :
    Lockstep (Abreast known S O) (toBytes v encoding) (toBytes v encoding) := by
  have hserialized : Lockstep (Abreast known S O)
      (do return some (← serializeWith (← choose Resolvers.chooseSerializer v) v encoding))
      (do return some (← serializeWith (← choose Resolvers.chooseSerializer v) v encoding)) := by
    refine choose_bind_lockstep hbuiltin hpick v fun serializer hserializer => ?_
    exact .bind_same (serializeWith_lockstep hserializer v encoding) fun bytes => lockstep_pure _
  cases v with
  | null => exact lockstep_pure _
  | bytes bs => exact lockstep_pure _
  | _ => exact hserialized

end Run

namespace WorldM

-- What a step does that can be seen without asking for strategies: its result, the store and the
-- output.
def seen (act : WorldM ε α) (w : World) : Except (Halt ε) α × Store × Sink :=
  ((act w).1, (act w).2.store, (act w).2.sink)

theorem Lockstep.seen_eq {known : Class → Prop} {S : Resolvers → Resolvers → Prop}
    {act : WorldM ε α} (h : Lockstep (World.Abreast known S Eq) act act) {w u : World}
    (hwu : World.Abreast known S Eq w u) : seen act u = seen act w := by
  have hend := h w u hwu
  unfold seen
  generalize act w = end₁ at hend ⊢
  generalize act u = end₂ at hend ⊢
  cases hend with
  | ok hsame =>
      obtain ⟨rfl, hI⟩ := hsame
      rw [hI.store, hI.sink]
  | stopped hI => rw [hI.store, hI.sink]

end WorldM

namespace Resolvers

variable {H : Hierarchy} {registrations : List Registration} {generate : Bool}

-- Both managers choose what the same registrations say.
def Agree (H : Hierarchy) (registrations : List Registration) (generate : Bool)
    (r r' : Resolvers) : Prop :=
  r.Settled H registrations generate ∧ r'.Settled H registrations generate

section Settled

variable {generate' : Bool} {r r' : Resolvers} {cls : Class} (hkeep : AllKeep H.known registrations)

include hkeep

-- Strategies by the same registrations serve for each other if accessors do.
theorem Settled.interchange
    (hgetter : ∀ cls, H.known cls → (getterFor registrations generate cls).Matches cls
      (getterFor registrations generate' cls))
    (hsetter : ∀ cls, H.known cls → (setterFor registrations generate cls).Matches cls
      (setterFor registrations generate' cls)) :
    Interchange H.known fun r r' =>
      r.Settled H registrations generate ∧ r'.Settled H registrations generate' where
  builtin := H.builtin
  getter := by
    intro r r' cls h hcls
    obtain ⟨hchosen, hkept⟩ := h.1.chooseGetter hcls
    obtain ⟨hchosen', hkept'⟩ := h.2.chooseGetter hcls
    rw [hchosen, hchosen']
    exact ⟨hgetter cls hcls, ⟨hkept, hkept'⟩, hkeep.getterFor generate cls⟩
  setter := by
    intro r r' cls h hcls
    obtain ⟨hchosen, hkept⟩ := h.1.chooseSetter hcls
    obtain ⟨hchosen', hkept'⟩ := h.2.chooseSetter hcls
    rw [hchosen, hchosen']
    exact ⟨hsetter cls hcls, ⟨hkept, hkept'⟩, hkeep.setterFor generate cls⟩

theorem Settled.serializer (h : r.Settled H registrations generate)
    (h' : r'.Settled H registrations generate') (hcls : H.known cls) :
    (r'.chooseSerializer cls).1 = (r.chooseSerializer cls).1 ∧
      ((r.chooseSerializer cls).2.Settled H registrations generate ∧
        (r'.chooseSerializer cls).2.Settled H registrations generate') ∧
      (r.chooseSerializer cls).1.Keeps H.known := by
  obtain ⟨hchosen, hkept⟩ := h.chooseSerializer hcls
  obtain ⟨hchosen', hkept'⟩ := h'.chooseSerializer hcls
  rw [hchosen, hchosen']
  exact ⟨rfl, ⟨hkept, hkept'⟩, hkeep.serializerFor cls⟩

theorem Agree.interchange : Interchange H.known (Agree H registrations generate) :=
  Settled.interchange hkeep (fun cls _ => .refl cls _) fun cls _ => .refl cls _

theorem Agree.serializer (hagree : Agree H registrations generate r r') (hcls : H.known cls) :
    (r'.chooseSerializer cls).1 = (r.chooseSerializer cls).1 ∧
      Agree H registrations generate (r.chooseSerializer cls).2 (r'.chooseSerializer cls).2 ∧
      (r.chooseSerializer cls).1.Keeps H.known :=
  Settled.serializer hkeep hagree.1 hagree.2 hcls

end Settled

-- The choice for a class is a function of the registrations alone, and so is all that can be seen
-- of reading, writing and turning values into bytes.
theorem choice_forgets_history (H : Hierarchy) (registrations : List Registration)
    (generate : Bool) (history : List Lookup) (hhistory : ∀ lookup ∈ history, H.known lookup.cls) :
    (∀ cls, H.known cls →
      (((init registrations generate).after history).chooseGetter cls).1 =
          getterFor registrations generate cls ∧
        (((init registrations generate).after history).chooseSetter cls).1 =
          setterFor registrations generate cls ∧
        (((init registrations generate).after history).chooseSerializer cls).1 =
          serializerFor registrations cls) ∧
      ∀ natives : Run.Natives, natives.Confined H.known → AllKeep H.known registrations →
        ∀ (fuel : Nat) (store : Store) (sink : Sink), store.heap.Of H.known →
          let used : World := ⟨store, (init registrations generate).after history, sink⟩
          let fresh : World := ⟨store, init registrations generate, sink⟩
          (∀ target key,
            WorldM.seen (Run.getProperty (Run.linkage natives fuel) target key) used =
              WorldM.seen (Run.getProperty (Run.linkage natives fuel) target key) fresh) ∧
          (∀ target key v, WorldM.seen (Run.setProperty target key v) used =
              WorldM.seen (Run.setProperty target key v) fresh) ∧
          ∀ v encoding, WorldM.seen (Run.toBytes v encoding) used =
              WorldM.seen (Run.toBytes v encoding) fresh := by
  have hfresh := Settled.init H registrations generate
  have hused := hfresh.after hhistory
  constructor
  · intro cls hcls
    exact ⟨(hused.chooseGetter hcls).1, (hused.chooseSetter hcls).1,
      (hused.chooseSerializer hcls).1⟩
  · intro natives hnatives hkeep fuel store sink hstore used fresh
    have hworlds : World.Abreast H.known (Agree H registrations generate) Eq fresh used :=
      ⟨rfl, hstore, ⟨hfresh, hused⟩, rfl⟩
    have hstrategies : Interchange H.known (Agree H registrations generate) :=
      Agree.interchange hkeep
    have htogether := Run.watch_together hstrategies hnatives (fun _ => True) fuel
    refine ⟨?_, ?_, ?_⟩
    · intro target key
      exact WorldM.Lockstep.seen_eq
        (Run.getProperty_lockstep htogether.hasNext hstrategies target key) hworlds
    · intro target key v
      exact WorldM.Lockstep.seen_eq (Run.setProperty_lockstep hstrategies target key v) hworlds
    · intro v encoding
      exact WorldM.Lockstep.seen_eq
        (Run.toBytes_lockstep H.builtin (Agree.serializer hkeep) v encoding) hworlds

-- The classes of values and two of the host, one of which stands for the other.
def shapeClass : Class := .mk 15 "shape" [.any] []

def circleClass : Class :=
  .mk 16 "circle" [shapeClass] [⟨"radius", fun s => s.slots.head?, none⟩]

def shapes : Hierarchy where
  known cls := cls ∈ shapeClass :: circleClass :: Class.builtin
  builtin := by
    intro cls hcls
    exact List.mem_cons_of_mem _ (List.mem_cons_of_mem _ hcls)
  distinct := by
    intro cls other hcls hother hkey
    have hkeys : ((shapeClass :: circleClass :: Class.builtin).map Class.key).Nodup := by decide
    exact List.inj_on_of_nodup_map hkeys hcls hother hkey

-- A strategy that yields no bytes and writes down for which encoding it was asked.
def noteEncoding : Serializer := .custom fun _ encoding store => (.ok [], store.record encoding)

-- Every shape is read like a map. A circle is written like a list, since its first declaration
-- counts, though it has fields.
def shapeRegistrations : List Registration :=
  [.assignable shapeClass { getter := some .map, serializer := some noteEncoding },
    .delegating [.exact circleClass { setter := some .list }],
    .exact circleClass { setter := some .map }]

theorem shapeRegistrations_keep (known : Class → Prop) : AllKeep known shapeRegistrations := by
  intro entry hentry offer hoffer
  have hflat : flattenAll shapeRegistrations =
      [.assignable shapeClass { getter := some .map, serializer := some noteEncoding },
        .exact circleClass { setter := some .list },
        .exact circleClass { setter := some .map }] := rfl
  rw [hflat] at hentry
  simp only [List.mem_cons, List.not_mem_nil, or_false] at hentry
  obtain rfl | rfl | rfl := hentry
  · cases hoffer
    refine ⟨?_, ?_, ?_⟩
    · intro getter hgetter
      cases hgetter
      trivial
    · intro setter hsetter
      cases hsetter
    · intro serializer hserializer
      cases hserializer
      exact fun _ _ _ hstore => hstore
  · cases hoffer
    exact .of_setter trivial
  · cases hoffer
    exact .of_setter trivial

def shapeHistory : List Lookup := [.get circleClass, .set shapeClass, .get .any, .set circleClass]

def circle : HostObject where
  cls := circleClass
  state := ⟨"circle", [.int 3]⟩
  display := fun _ => [.text "circle"]
  debug := fun _ => [.text "circle"]
  iterate := fun _ => none

def circleWorld (resolvers : Resolvers) : World :=
  ⟨⟨⟨#[], #[], #[], #[circle]⟩, []⟩, resolvers, .newText⟩

theorem choice_forgets_history_shapes :
    (∀ lookup ∈ shapeHistory, shapes.known lookup.cls) ∧
      (((init shapeRegistrations true).after shapeHistory).chooseGetter circleClass).1 = .map ∧
      (((init shapeRegistrations true).after shapeHistory).chooseSetter circleClass).1 = .list ∧
      (((init shapeRegistrations true).after shapeHistory).chooseSerializer circleClass).1 =
        noteEncoding ∧
      WorldM.seen (Run.toBytes (.host 0) "UTF-8")
          (circleWorld ((init shapeRegistrations true).after shapeHistory)) =
        WorldM.seen (Run.toBytes (.host 0) "UTF-8")
          (circleWorld (init shapeRegistrations true)) := by
  have hhistory : ∀ lookup ∈ shapeHistory, shapes.known lookup.cls := by
    simp [shapeHistory, shapes, Lookup.cls, Class.builtin]
  have hcircle : shapes.known circleClass := by simp [shapes]
  have hnatives : Run.Natives.Confined shapes.known #[nextItem] := by
    intro native hnative
    rw [Array.mem_singleton.mp hnative]
    exact nextItem_confined shapes.known
  have hstore : (circleWorld (init shapeRegistrations true)).heap.Of shapes.known := by
    intro object hobject
    rw [Array.mem_singleton.mp hobject]
    exact hcircle
  obtain ⟨hchoice, hseen⟩ := choice_forgets_history shapes shapeRegistrations true shapeHistory
    hhistory
  obtain ⟨hgetter, hsetter, hserializer⟩ := hchoice circleClass hcircle
  have hbytes := (hseen #[nextItem] hnatives (shapeRegistrations_keep shapes.known) 9 _ .newText
    hstore).2.2 (.host 0) "UTF-8"
  exact ⟨hhistory, hgetter, hsetter, hserializer, hbytes⟩

end Resolvers

end Stencil
