import Stencil.Proofs.Resolve.Blind
import Stencil.Proofs.Run.Waiting
import Stencil.Run.Execute

namespace Stencil

def World.rebody (edit : List Stmt → List Stmt) (w : World) : World :=
  { w with store := w.store.rebody edit }

-- All code of the host that a run can reach is blind to bodies.
structure World.Blind (w : World) : Prop where
  store : w.store.Blind
  resolvers : w.resolvers.Blind

-- The second step does on edited bodies what the first one does on the bodies as they are.
abbrev WorldM.Respects (edit : List Stmt → List Stmt) (f : α → α) (act act' : WorldM ε α) : Prop :=
  Mirrors World.Blind (World.rebody edit) f act act'

variable {edit : List Stmt → List Stmt}

theorem World.Blind.setHeap {w : World} (hw : w.Blind) {heap : Heap} (hheap : heap.Blind) :
    (w.setHeap heap).Blind :=
  ⟨hheap, hw.resolvers⟩

namespace WorldM

variable {f : α → α}

theorem respects_fail (f : α → α) (e : ε) : Respects edit f (fail e : WorldM ε α) (fail e) :=
  Mirrors.throw f (Halt.raised e)

theorem respects_exhausted (f : α → α) : Respects edit f (exhausted : WorldM ε α) exhausted :=
  Mirrors.throw f Halt.outOfFuel

theorem respects_ofExcept {r r' : Except ε α} (h : r' = r.map f) :
    Respects edit f (ofExcept r) (ofExcept r') := by
  subst h
  cases r with
  | error e => exact respects_fail f e
  | ok a => exact Mirrors.pure rfl

theorem respects_heap_bind {g : β → β} {rest rest' : Heap → WorldM ε β}
    (h : ∀ heap, heap.Blind → Respects edit g (rest heap) (rest' (heap.rebody edit))) :
    Respects edit g (heap >>= rest) (heap >>= rest') :=
  fun w hw => h w.heap hw.store w hw

theorem respects_setHeap {heap : Heap} (hheap : heap.Blind) :
    Respects edit id (setHeap heap : WorldM ε PUnit) (setHeap (heap.rebody edit)) :=
  Mirrors.update (fun _ _ => rfl) fun _ hw => hw.setHeap hheap

theorem respects_mapError {act act' : WorldM ε α} (g : ε → δ) (h : Respects edit f act act') :
    Respects edit f (mapError g act) (mapError g act') := by
  intro w hw
  obtain ⟨hend, hgood⟩ := h w hw
  simp only [mapError, hend]
  rcases hresult : act w with ⟨halt | a, w'⟩
  · rw [hresult] at hgood
    exact ⟨rfl, hgood⟩
  · rw [hresult] at hgood
    exact ⟨rfl, hgood⟩

theorem respects_onStore {act act' : Store → Except ε α × Store}
    (h : Mirrors Store.Blind (Store.rebody edit) f act act') :
    Respects edit f (onStore act) (onStore act') := by
  intro w hw
  obtain ⟨hend, hgood⟩ := h w.store hw.store
  simp only [onStore, World.rebody, hend]
  rcases hresult : act w.store with ⟨e | a, store⟩
  · rw [hresult] at hgood
    exact ⟨rfl, hgood, hw.resolvers⟩
  · rw [hresult] at hgood
    exact ⟨rfl, hgood, hw.resolvers⟩

theorem respects_onSink (act : Sink → Except ε α × Sink) :
    Respects edit id (onSink act) (onSink act) := by
  intro w hw
  simp only [onSink, World.rebody]
  rcases act w.sink with ⟨e | a, sink⟩
  · exact ⟨rfl, hw.store, hw.resolvers⟩
  · exact ⟨rfl, hw.store, hw.resolvers⟩

theorem respects_silently {act act' : WorldM ε α} (h : Respects edit f act act') :
    Respects edit f (silently act) (silently act') := by
  intro w hw
  obtain ⟨hend, hgood⟩ := h { w with sink := .discard } ⟨hw.store, hw.resolvers⟩
  refine ⟨?_, hgood.store, hgood.resolvers⟩
  have hend : act' { w.rebody edit with sink := .discard } = _ := hend
  simp only [silently, hend]
  rfl

theorem respects_newList (items : List Value) :
    Respects edit (Value.rebody edit) (newList items : WorldM ε Value)
      (newList (items.map (Value.rebody edit))) := by
  refine respects_heap_bind fun heap hheap => ?_
  have hpush : ((heap.rebody edit).newList (items.map (Value.rebody edit))).2 =
      (heap.newList items).2.rebody edit := by
    simp [Heap.newList, Heap.rebody]
  simp only [hpush]
  refine Mirrors.bind (respects_setHeap hheap) fun _ => Mirrors.pure ?_
  simp [Heap.newList, Heap.rebody]

theorem respects_newIter (it : Iterator) :
    Respects edit id (newIter it : WorldM ε Nat) (newIter (it.rebody edit)) := by
  refine respects_heap_bind fun heap hheap => ?_
  have hpush : ((heap.rebody edit).newIter (it.rebody edit)).2 =
      (heap.newIter it).2.rebody edit := by
    simp [Heap.newIter, Heap.rebody]
  simp only [hpush]
  refine Mirrors.bind (respects_setHeap hheap) fun _ => Mirrors.pure ?_
  simp [Heap.rebody]

end WorldM

namespace Iterator

variable {h : Heap}

theorem cursor_rebody (it : Iterator) : (it.rebody edit).cursor = it.cursor := by
  induction it with
  | mapped source change ih => exact ih
  | _ => rfl

theorem index_rebody (it : Iterator) : index (h.rebody edit) (it.rebody edit) = index h it := by
  have hwithin : ∀ fuel (it : Iterator),
      indexWithin (h.rebody edit) fuel (it.rebody edit) = indexWithin h fuel it := by
    intro fuel
    induction fuel with
    | zero =>
        intro it
        simp only [indexWithin, cursor_rebody]
    | succ fuel ih =>
        intro it
        rw [indexWithin, indexWithin, cursor_rebody]
        cases it.cursor with
        | inl cursor => rfl
        | inr ref =>
            simp only [Heap.iters_rebody]
            cases h.iters[ref]? with
            | none => rfl
            | some inner => exact ih inner
  have hsize : (h.rebody edit).iters.size = h.iters.size := by simp [Heap.rebody]
  rw [index, index, hsize, hwithin]

theorem ofValue_rebody (hh : h.Blind) (v : Value) :
    ofValue (h.rebody edit) (v.rebody edit) =
      (ofValue h v).map (Option.map (Iterator.rebody edit)) := by
  cases v with
  | list ref =>
      simp only [Value.rebody_list, ofValue, Heap.items_rebody]
      rfl
  | map ref =>
      simp only [Value.rebody_map, ofValue, Heap.entries_rebody, List.map_map]
      simp [Except.map, ofList, Iterator.rebody, Function.comp_def, Value.rebody]
  | str s => simp [ofValue, Except.map, ofList, Iterator.rebody, Function.comp_def, Value.rebody]
  | bytes bs => simp [ofValue, Except.map, ofList, Iterator.rebody, Function.comp_def, Value.rebody]
  | host ref =>
      have htype : (Value.host ref).typeName (h.rebody edit) = (Value.host ref).typeName h :=
        Value.typeName_rebody (.host ref)
      simp only [Value.rebody_host, ofValue, Heap.hosts_rebody] at htype ⊢
      rw [htype]
      cases hobject : h.hosts[ref]? with
      | none => rfl
      | some object =>
          simp only [Option.map_some, Option.bind_some, HostObject.rebody,
            (hh.getElem? hobject).iterate]
          cases object.iterate object.state <;> rfl
  | _ => rfl

end Iterator

-- Calls and iterators go the same way on edited bodies.
structure Linkage.Respects (edit : List Stmt → List Stmt) (k : Linkage) : Prop where
  call : ∀ callee args pos, WorldM.Respects edit (Value.rebody edit) (k.call callee args pos)
    (k.call (callee.rebody edit) (args.map (Value.rebody edit)) pos)
  hasNext : ∀ ref, WorldM.Respects edit id (k.hasNext ref) (k.hasNext ref)
  next : ∀ ref, WorldM.Respects edit (Value.rebody edit) (k.next ref) (k.next ref)

namespace Run

open Resolve

variable {k : Linkage} (hk : k.Respects edit)

include hk in
theorem readStatus_respects (ref : Nat) (status : LoopStatus) :
    WorldM.Respects edit (Value.rebody edit) (readStatus k ref status)
      (readStatus k ref status) := by
  refine WorldM.respects_heap_bind fun heap _ => ?_
  have hindex : Iterator.index (heap.rebody edit) (.shared ref) =
      Iterator.index heap (.shared ref) := Iterator.index_rebody (.shared ref)
  rw [hindex]
  cases status with
  | hasNext => exact Mirrors.bind (hk.hasNext ref) fun _ => Mirrors.pure rfl
  | isLast => exact Mirrors.bind (hk.hasNext ref) fun _ => Mirrors.pure rfl
  | _ => exact Mirrors.pure rfl

theorem noSuchProperty_respects {heap : Heap} (hheap : heap.Blind) (target key : Value) :
    WorldM.Respects edit (Value.rebody edit) (WorldM.fail (noSuchProperty heap target key))
      (WorldM.fail (noSuchProperty (heap.rebody edit) (target.rebody edit) (key.rebody edit))) :=
  WorldM.respects_ofExcept (noSuchProperty_rebody hheap target key)

include hk in
theorem readIter_respects (target key : Value) :
    WorldM.Respects edit (Value.rebody edit) (readIter k target key)
      (readIter k (target.rebody edit) (key.rebody edit)) := by
  refine WorldM.respects_heap_bind fun heap hheap => ?_
  have hmissing : WorldM.Respects edit _ _ _ := noSuchProperty_respects hheap target key
  rw [Value.str?_rebody]
  cases target with
  | iter ref =>
      cases hstatus : key.str?.bind LoopStatus.ofName? with
      | none => exact hmissing
      | some status => exact readStatus_respects hk ref status
  | _ => exact hmissing

include hk in
theorem readWith_respects {getter : Getter} (hgetter : getter.Blind) (target key : Value) :
    WorldM.Respects edit (Value.rebody edit) (readWith k getter target key)
      (readWith k getter (target.rebody edit) (key.rebody edit)) := by
  refine WorldM.respects_heap_bind fun heap hheap => ?_
  cases getter with
  | common => exact WorldM.respects_ofExcept (readCommon_rebody hheap target key)
  | list =>
      simp only [WorldM.locking_getList, pure_bind]
      exact WorldM.respects_ofExcept (readList_rebody hheap target key)
  | map =>
      simp only [WorldM.locking_getMap, pure_bind]
      exact WorldM.respects_ofExcept (readMap_rebody hheap target key)
  | string => exact WorldM.respects_ofExcept (readString_rebody hheap target key)
  | bytes => exact WorldM.respects_ofExcept (readBytes_rebody hheap target key)
  | range => exact WorldM.respects_ofExcept (readRange_rebody hheap target key)
  | iter => exact readIter_respects hk target key
  | fieldTable cls => exact WorldM.respects_ofExcept (readIndexed_rebody hheap hgetter target key)
  | custom run => exact WorldM.respects_onStore (hgetter edit target key)

-- The bodies of functions are in no text.
theorem match_rebody {heap : Heap} (hheap : heap.Blind) :
    Value.Match heap (heap.rebody edit) (fun v v' => v' = v.rebody edit) Eq where
  container := by
    rintro v _ rfl
    cases v <;> first | exact .none | exact .some rfl
  parts := by
    rintro c _ rfl
    cases c with
    | list ref =>
        simp only [Container.parts, Heap.items_rebody, List.map_map, List.forall₂_map_left_iff,
          List.forall₂_map_right_iff]
        exact List.forall₂_same.mpr fun _ _ => rfl
    | map ref =>
        simp only [Container.parts, Heap.entries_rebody, List.map_map, List.forall₂_map_left_iff,
          List.forall₂_map_right_iff]
        exact List.forall₂_same.mpr fun _ _ => rfl
  shown := by
    rintro v _ rfl
    cases v with
    | host ref =>
        cases ho : heap.hosts[ref]? with
        | none =>
            simp only [Value.rebody, Value.shownBy, Heap.hosts_rebody, ho]
            exact .nil
        | some o =>
            simp only [Value.rebody, Value.shownBy, Heap.hosts_rebody, ho, Option.map_some,
              Option.elim_some, HostObject.rebody, (hheap.getElem? ho).display]
            refine Value.forall₂_value? (List.forall₂_map_right_iff.mpr ?_)
            refine List.forall₂_same.mpr fun piece _ => ?_
            cases piece with
            | text s => exact .none
            | value v => exact .some rfl
    | _ => exact .nil

theorem waits_rebody {heap : Heap} (hheap : heap.Blind) {target key : Value} :
    Waits (heap.rebody edit) (target.rebody edit) (key.rebody edit) ↔ Waits heap target key := by
  have hsame : OneToOne (@Eq Container) := by
    rintro a _ c _ rfl rfl
    rfl
  refine exists_congr fun ref => and_congr ?_ ((match_rebody hheap).opens_iff hsame rfl rfl)
  cases target <;> simp [Value.rebody]

theorem store_respects {heap : Option Heap} (hheap : ∀ h, heap = some h → h.Blind) :
    WorldM.Respects edit id (store heap) (store (heap.map (Heap.rebody edit))) := by
  cases heap with
  | none => exact Mirrors.pure rfl
  | some heap =>
      exact Mirrors.bind (WorldM.respects_setHeap (hheap heap rfl)) fun _ => Mirrors.pure rfl

theorem writeWith_respects {setter : Setter} (hsetter : setter.Blind) (target key v : Value) :
    WorldM.Respects edit id (writeWith setter target key v)
      (writeWith setter (target.rebody edit) (key.rebody edit) (v.rebody edit)) := by
  refine WorldM.respects_heap_bind fun heap hheap => ?_
  cases setter with
  | common =>
      have hfields : ∀ f, scanField? (target.cls heap) key = some f → f.Blind :=
        fun _ => scanField?_blind (cls_blind hheap target)
      simp only [Value.cls_rebody, scanField?_rebody, writeField_rebody hfields]
      exact store_respects fun _ => writeField_blind hheap
  | list =>
      simp only [WorldM.locking_setList, pure_bind, writeList_rebody]
      cases hwritten : writeList heap target key v with
      | error fault => exact WorldM.respects_fail id fault
      | ok written =>
          have hblind : ∀ h, written = some h → h.Blind := by
            intro h hsome
            rw [hsome] at hwritten
            exact writeList_blind hheap hwritten
          exact store_respects hblind
  | map =>
      by_cases hwaits : Waits heap target key
      · simp only [WorldM.locking_setMap_of_waits hwaits,
          WorldM.locking_setMap_of_waits ((waits_rebody hheap).mpr hwaits)]
        exact WorldM.respects_exhausted id
      · simp only [WorldM.locking_setMap hwaits,
          WorldM.locking_setMap (mt (waits_rebody hheap).mp hwaits), pure_bind,
          writeMap_rebody hheap]
        exact store_respects fun _ => writeMap_blind hheap
  | fieldTable cls =>
      have hfields : ∀ f, indexedField? cls key = some f → f.Blind :=
        fun _ => indexedField?_blind hsetter
      simp only [indexedField?_rebody, writeField_rebody hfields]
      exact store_respects fun _ => writeField_blind hheap
  | custom run => exact WorldM.respects_onStore (hsetter edit target key v)

theorem serializeWith_respects {serializer : Serializer} (hserializer : serializer.Blind)
    (v : Value) (encoding : String) :
    WorldM.Respects edit id (serializeWith serializer v encoding)
      (serializeWith serializer (v.rebody edit) encoding) := by
  have htext : WorldM.Respects edit id
      (do
        let encoding ← WorldM.ofExcept (Encoding.ofName encoding)
        return encoding.encode (v.display (← WorldM.heap)))
      (do
        let encoding ← WorldM.ofExcept (Encoding.ofName encoding)
        return encoding.encode ((v.rebody edit).display (← WorldM.heap))) := by
    refine Mirrors.bind (WorldM.respects_ofExcept (f := id) ?_) fun encoding => ?_
    · cases Encoding.ofName encoding <;> rfl
    · refine WorldM.respects_heap_bind fun heap hheap => Mirrors.pure ?_
      rw [Value.display_rebody hheap]
      rfl
  cases serializer with
  | common => exact htext
  | string => exact htext
  | custom run => exact WorldM.respects_onStore (hserializer edit v encoding)

-- The choice of a strategy depends on the class of the value, which shows no bodies.
theorem choose_bind_respects {f : α → α} {P : R → Prop}
    {pick : Resolvers → Class → R × Resolvers} {rest rest' : R → WorldM Fault α} (v : Value)
    (hpick : ∀ r cls, r.Blind → cls.Blind → P (pick r cls).1 ∧ (pick r cls).2.Blind)
    (hrest : ∀ strategy, P strategy → WorldM.Respects edit f (rest strategy) (rest' strategy)) :
    WorldM.Respects edit f (choose pick v >>= rest) (choose pick (v.rebody edit) >>= rest') := by
  intro w hw
  obtain ⟨hstrategy, hresolvers⟩ := hpick w.resolvers (v.cls w.heap) hw.resolvers
    (cls_blind hw.store v)
  have hcls : (v.rebody edit).cls (w.rebody edit).heap = v.cls w.heap := Value.cls_rebody v
  have hnext := hrest _ hstrategy { w with resolvers := (pick w.resolvers (v.cls w.heap)).2 }
    ⟨hw.store, hresolvers⟩
  change rest' (pick w.resolvers ((v.rebody edit).cls (w.rebody edit).heap)).1
      { w.rebody edit with
        resolvers := (pick w.resolvers ((v.rebody edit).cls (w.rebody edit).heap)).2 } = _ ∧ _
  rw [hcls]
  exact hnext

include hk in
theorem getProperty_respects (target key : Value) :
    WorldM.Respects edit (Value.rebody edit) (getProperty k target key)
      (getProperty k (target.rebody edit) (key.rebody edit)) := by
  rw [getProperty, getProperty, Value.isNull_rebody]
  split
  · exact Mirrors.pure rfl
  · exact choose_bind_respects target (fun _ _ hr hcls => hr.chooseGetter hcls)
      fun _ hgetter => readWith_respects hk hgetter target key

theorem setProperty_respects (target key v : Value) :
    WorldM.Respects edit id (setProperty target key v)
      (setProperty (target.rebody edit) (key.rebody edit) (v.rebody edit)) := by
  rw [setProperty, setProperty, Value.isNull_rebody]
  split
  · exact Mirrors.pure rfl
  · exact choose_bind_respects target (fun _ _ hr hcls => hr.chooseSetter hcls)
      fun _ hsetter => writeWith_respects hsetter target key v

theorem toBytes_respects (v : Value) (encoding : String) :
    WorldM.Respects edit id (toBytes v encoding) (toBytes (v.rebody edit) encoding) := by
  have hchosen : WorldM.Respects edit id
      (do return some (← serializeWith (← choose Resolvers.chooseSerializer v) v encoding))
      (do return some (← serializeWith (← choose Resolvers.chooseSerializer (v.rebody edit))
        (v.rebody edit) encoding)) :=
    choose_bind_respects v (fun _ cls hr _ => hr.chooseSerializer cls)
      fun _ hserializer => Mirrors.bind (serializeWith_respects hserializer v encoding)
        fun _ => Mirrors.pure rfl
  cases v with
  | null => exact Mirrors.pure rfl
  | bytes bs => exact Mirrors.pure rfl
  | _ => exact hchosen

theorem writeText_respects (text : String) :
    WorldM.Respects edit id (writeText text) (writeText text) :=
  WorldM.respects_onSink _

theorem writeValue_respects (v : Value) :
    WorldM.Respects edit id (writeValue v) (writeValue (v.rebody edit)) := by
  refine Mirrors.get_bind fun w _ => ?_
  have hsink : (w.rebody edit).sink = w.sink := rfl
  simp only [hsink, Value.isNull_rebody]
  split
  · refine Mirrors.bind (toBytes_respects v w.sink.encoding.name) fun bytes => ?_
    cases bytes with
    | none => exact Mirrors.pure rfl
    | some bytes => exact WorldM.respects_onSink _
  · split
    · exact Mirrors.pure rfl
    · refine WorldM.respects_heap_bind fun heap hheap => ?_
      rw [Value.display_rebody hheap]
      exact writeText_respects _

end Run

end Stencil
