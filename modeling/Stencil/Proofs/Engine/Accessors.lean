import Stencil.Proofs.Engine.History

namespace Stencil

open Registration Resolve

-- No two fields of the class share a name.
def Class.NamesFields (c : Class) : Prop := (c.fields.map Field.name).Nodup

namespace Resolve

variable {cls : Class} {name : String}

-- The last field of a name is the first one where it is the only one.
theorem find?_reverse_fields {fields : List Field} (h : (fields.map Field.name).Nodup) :
    fields.reverse.find? (·.name = name) = fields.find? (·.name = name) := by
  induction fields with
  | nil => rfl
  | cons f rest ih =>
      obtain ⟨hf, hrest⟩ := List.nodup_cons.mp h
      rw [List.reverse_cons, List.find?_append, ih hrest, List.find?_cons]
      by_cases hname : f.name = name
      · have hnone : rest.find? (·.name = name) = none := by
          refine List.find?_eq_none.mpr fun other hother => ?_
          have hne : other.name ≠ f.name := fun he => hf (he ▸ List.mem_map_of_mem hother)
          simpa [← hname] using hne
        simp [hnone, hname]
      · simp [hname]

theorem indexedField?_eq (h : cls.NamesFields) (key : Value) :
    indexedField? cls key = scanField? cls key := by
  unfold indexedField? scanField?
  exact congrArg _ (funext fun name => find?_reverse_fields h)

theorem fieldTable_getter (h : cls.NamesFields) :
    (Getter.fieldTable cls).Matches cls .common := by
  intro k target key w hcls
  have hread : readCommon w.heap target key = readIndexed w.heap cls target key := by
    rw [readCommon, readIndexed, hcls, indexedField?_eq h, noSuchProperty, Value.typeName, hcls]
  change WorldM.ofExcept (readCommon w.heap target key) w =
    WorldM.ofExcept (readIndexed w.heap cls target key) w
  rw [hread]

theorem fieldTable_setter (h : cls.NamesFields) :
    (Setter.fieldTable cls).Matches cls .common := by
  intro target key v w hcls
  change Run.store (writeField w.heap (scanField? (target.cls w.heap) key) target v) w =
    Run.store (writeField w.heap (indexedField? cls key) target v) w
  rw [hcls, indexedField?_eq h]

end Resolve

namespace Registration

variable {pick : Offer → Option R} {registrations : List Registration} {cls : Class}

-- Nothing but what there is otherwise tells two choices apart.
theorem strategyFor_related {M : R → R → Prop} (hrefl : ∀ strategy, M strategy strategy)
    {otherwise otherwise' : R} (h : M otherwise otherwise') :
    M (strategyFor pick registrations cls otherwise)
      (strategyFor pick registrations cls otherwise') := by
  unfold strategyFor
  cases (firstExact pick registrations cls).or (firstAssignable pick registrations cls) with
  | none => exact h
  | some strategy => exact hrefl strategy

theorem getterFor_matches (h : cls.NamesFields) :
    (getterFor registrations true cls).Matches cls (getterFor registrations false cls) := by
  apply strategyFor_related (Getter.Matches.refl cls)
  cases hgenerates : generates true cls with
  | true => exact fieldTable_getter h
  | false => exact .refl cls .common

theorem setterFor_matches (h : cls.NamesFields) :
    (setterFor registrations true cls).Matches cls (setterFor registrations false cls) := by
  apply strategyFor_related (Setter.Matches.refl cls)
  cases hgenerates : generates true cls with
  | true => exact fieldTable_setter h
  | false => exact .refl cls .common

end Registration

namespace Resolvers

-- Strategies by the same registrations. Only the first ones make accessors.
def Accelerate (H : Hierarchy) (registrations : List Registration) (r r' : Resolvers) : Prop :=
  r.Settled H registrations true ∧ r'.Settled H registrations false

theorem Accelerate.substitute {H : Hierarchy} {registrations : List Registration}
    (hnames : ∀ cls, H.known cls → cls.NamesFields) (hkeep : AllKeep H.known registrations) :
    Engine.Substitute H.known (Accelerate H registrations) where
  toInterchange := Settled.interchange hkeep (fun cls hcls => getterFor_matches (hnames cls hcls))
    fun cls hcls => setterFor_matches (hnames cls hcls)
  serializer h hcls := Settled.serializer hkeep h.1 h.2 hcls

end Resolvers

namespace Engine

-- An engine that makes accessors and one that does not come to the same with all requests.
theorem performAll_generating {H : Hierarchy} {natives : Run.Natives}
    {registrations : List Registration} (config : Config) {store : Store} {requests : List Request}
    (hnames : ∀ cls, H.known cls → cls.NamesFields) (hnatives : natives.Confined H.known)
    (hkeep : AllKeep H.known registrations) (hstore : store.heap.Of H.known)
    (hrequests : ∀ r ∈ requests, r.Keeps H.known) :
    let start generateAccessors :=
      start { config with generateAccessors } registrations natives store
    ((start false).performAll requests).1 = ((start true).performAll requests).1 ∧
      ((start true).performAll requests).2.Abreast H.known
        (Resolvers.Accelerate H (Resolvers.defaults :: registrations)) natives
        ((start false).performAll requests).2 := by
  intro start
  have hstart : (start true).Abreast H.known
      (Resolvers.Accelerate H (Resolvers.defaults :: registrations)) natives (start false) :=
    ⟨rfl, hstore, rfl, ⟨rfl, rfl⟩, rfl, .init .., .init ..⟩
  exact hstart.performAll (Resolvers.Accelerate.substitute hnames hkeep.withDefaults) hnatives
    hrequests

section Rivals

-- Two fields of one name, the last of which can be written.
def shadowed : Field := ⟨"p", fun _ => some (.int 1), none⟩

def shadowing : Field :=
  ⟨"p", fun _ => some (.int 2), some fun state v => some { state with slots := [v] }⟩

def rivals : Class := .mk Class.firstHostKey "rivals" [.any] [shadowed, shadowing]

def rival : HostObject where
  cls := rivals
  state := ⟨"rival", []⟩
  display := fun _ => [.text "rival"]
  debug := fun _ => [.text "rival"]
  iterate := fun _ => none

def rivalStore : Store := ⟨⟨#[], #[], #[], #[rival]⟩, []⟩

def rivalWorld (config : Config) (natives : Run.Natives) : World :=
  ⟨rivalStore, (start config [] natives rivalStore).engine.resolvers, .discard⟩

theorem rivals_read (k : Linkage) (config : Config) (natives : Run.Natives) :
    (Run.getProperty k (.host 0) (.str "p") (rivalWorld config natives)).1 =
      .ok (.int (if config.generateAccessors then 2 else 1)) := by
  obtain ⟨looseVar, trim, generate, encoding⟩ := config
  cases generate <;> rfl

theorem rivals_written (config : Config) (natives : Run.Natives) (v : Value) :
    (Run.setProperty (.host 0) (.str "p") v (rivalWorld config natives)).1 =
      .ok config.generateAccessors := by
  obtain ⟨looseVar, trim, generate, encoding⟩ := config
  cases generate <;> rfl

end Rivals

-- Accessors find the field that the scan finds and do the same with it, so nothing that an engine
-- is asked for tells whether it makes them. Where two fields share a name it can be told.
theorem accessors_match_scan :
    (∀ cls accessor, Accessor.generate cls = .ok accessor → cls.NamesFields → ∀ key,
      indexedField? accessor.cls key = scanField? cls key ∧
      ∀ target w, target.cls w.heap = cls →
        (∀ k, Run.readWith k (.fieldTable accessor.cls) target key w =
          Run.readWith k .common target key w) ∧
        ∀ v, Run.writeWith (.fieldTable accessor.cls) target key v w =
          Run.writeWith .common target key v w) ∧
    (∀ H : Hierarchy, (∀ cls, H.known cls → cls.NamesFields) →
      ∀ natives : Run.Natives, natives.Confined H.known →
      ∀ registrations, AllKeep H.known registrations →
      ∀ (config : Config) (store : Store), store.heap.Of H.known →
      ∀ requests : List Request, (∀ r ∈ requests, r.Keeps H.known) →
        let generating := (start { config with generateAccessors := true } registrations natives
          store).performAll requests
        let scanning := (start { config with generateAccessors := false } registrations natives
          store).performAll requests
        generating.1 = scanning.1 ∧ generating.2.store = scanning.2.store ∧
          generating.2.engine.templates = scanning.2.engine.templates) ∧
    ∃ (cls : Class) (first second : Field) (target key v : Value) (store : Store),
      cls.fields = [first, second] ∧ first.name = second.name ∧ first.isWritable = false ∧
      second.isWritable = true ∧ target.cls store.heap = cls ∧
      ∀ (config : Config) (natives : Run.Natives),
        let world generateAccessors : World :=
          ⟨store, (start { config with generateAccessors } [] natives store).engine.resolvers,
            .discard⟩
        (∀ k, (Run.getProperty k target key (world true)).1 ≠
          (Run.getProperty k target key (world false)).1) ∧
        (Run.setProperty target key v (world true)).1 ≠
          (Run.setProperty target key v (world false)).1 := by
  refine ⟨?_, ?_, ?_⟩
  · intro cls accessor hmade hnames key
    have hown : accessor.cls = cls := by
      unfold Accessor.generate at hmade
      split at hmade <;> cases hmade
      rfl
    rw [hown]
    refine ⟨indexedField?_eq hnames key, fun target w hcls => ⟨?_, ?_⟩⟩
    · exact fun k => (fieldTable_getter hnames k target key w hcls).symm
    · exact fun v => (fieldTable_setter hnames target key v w hcls).symm
  · intro H hnames natives hnatives registrations hkeep config store hstore requests hrequests
    obtain ⟨hanswers, hend⟩ := performAll_generating config hnames hnatives hkeep hstore
      hrequests
    exact ⟨hanswers.symm, hend.store.symm, hend.templates.symm⟩
  · refine ⟨rivals, shadowed, shadowing, .host 0, .str "p", .null, rivalStore, rfl, rfl, rfl,
      rfl, rfl, fun config natives => ⟨fun k hread => ?_, fun hwritten => ?_⟩⟩
    · have htwo := rivals_read k { config with generateAccessors := true } natives
      cases htwo.symm.trans (hread.trans (rivals_read k _ natives))
    · have hstored := rivals_written { config with generateAccessors := true } natives .null
      cases hstored.symm.trans (hwritten.trans (rivals_written _ natives .null))

section Circle

open Resolvers (circleClass circleWorld shapeClass shapes)

def circleRequests : List Request :=
  [.add "t" "${o.radius}", .renderTo 9 "t" (.ofList [("o", .host 0)]) .newText,
    .work fun store => store.record "again", .renderBytes 9 "t" (.ofList [("o", .host 0)])]

theorem shapes_name_fields (cls : Class) (h : shapes.known cls) : cls.NamesFields := by
  have hall : ∀ c ∈ shapeClass :: circleClass :: Class.builtin,
      (c.fields.map Field.name).Nodup := by decide
  exact hall cls h

theorem accessors_match_scan_circle :
    circleClass.NamesFields ∧
      Run.readWith (Run.linkage #[nextItem] 9) (.fieldTable circleClass) (.host 0) (.str "radius")
          (circleWorld (.withDefaults [] true)) =
        (.ok (.int 3), circleWorld (.withDefaults [] true)) ∧
      ((start { generateAccessors := true } [] #[nextItem]
          (circleWorld (.withDefaults [] true)).store).performAll circleRequests).1 =
        ((start { generateAccessors := false } [] #[nextItem]
          (circleWorld (.withDefaults [] true)).store).performAll circleRequests).1 := by
  have hcircle : shapes.known circleClass := by simp [shapes]
  have hnatives : Run.Natives.Confined shapes.known #[nextItem] := by
    intro native hnative
    rw [Array.mem_singleton.mp hnative]
    exact nextItem_confined shapes.known
  have hstore : (circleWorld (.withDefaults [] true)).heap.Of shapes.known := by
    intro object hobject
    rw [Array.mem_singleton.mp hobject]
    exact hcircle
  have hkeep : AllKeep shapes.known [] := by
    intro entry hentry
    cases hentry
  have hrequests : ∀ r ∈ circleRequests, r.Keeps shapes.known := by
    simp only [circleRequests, List.forall_mem_cons, Request.Keeps]
    exact ⟨trivial, trivial, fun _ hstore => hstore, trivial, List.forall_mem_nil _⟩
  obtain ⟨hscanned, hhistory, -⟩ := accessors_match_scan
  obtain ⟨-, hsame⟩ := hscanned circleClass ⟨circleClass⟩ rfl (shapes_name_fields _ hcircle)
    (.str "radius")
  refine ⟨shapes_name_fields _ hcircle, ?_, ?_⟩
  · exact ((hsame (.host 0) (circleWorld (.withDefaults [] true)) rfl).1 _).trans rfl
  · exact (hhistory shapes shapes_name_fields #[nextItem] hnatives [] hkeep {} _
      hstore circleRequests hrequests).1

end Circle

end Engine

end Stencil
