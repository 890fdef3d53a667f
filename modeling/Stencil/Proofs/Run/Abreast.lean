import Stencil.Proofs.Run.Follow
import Stencil.Proofs.Run.Waiting
import Stencil.Run.Call

namespace Stencil

-- Every object of the host is of a known class.
def Heap.Of (known : Class → Prop) (heap : Heap) : Prop := ∀ object ∈ heap.hosts, known object.cls

theorem Heap.Of.setState {known : Class → Prop} {heap : Heap} (h : heap.Of known) (ref : Nat)
    (state : HostState) : (heap.setState ref state).Of known := by
  intro object hobject
  obtain ⟨i, hi⟩ := Array.mem_iff_getElem?.mp hobject
  unfold Heap.setState at hi
  rw [Array.getElem?_modify] at hi
  by_cases href : ref = i
  · rw [if_pos href] at hi
    obtain ⟨old, hold, rfl⟩ := Option.map_eq_some_iff.mp hi
    exact h old (Array.mem_of_getElem? hold)
  · rw [if_neg href] at hi
    exact h object (Array.mem_of_getElem? hi)

theorem Heap.Of.cls {known : Class → Prop} {heap : Heap} (h : heap.Of known)
    (hbuiltin : ∀ cls ∈ Class.builtin, known cls) (v : Value) : known (v.cls heap) := by
  cases v with
  | host ref =>
      change known (((heap.hosts[ref]?).map HostObject.cls).getD .any)
      cases hobject : heap.hosts[ref]? with
      | none => exact hbuiltin .any (by simp [Class.builtin])
      | some object => exact h object (Array.mem_of_getElem? hobject)
  | _ => exact hbuiltin _ (by simp [Class.builtin, Value.cls])

-- Strategies of the host leave only objects of known classes.
def Getter.Keeps (known : Class → Prop) : Getter → Prop
  | .custom run => ∀ target key store, store.heap.Of known → (run target key store).2.heap.Of known
  | _ => True

def Setter.Keeps (known : Class → Prop) : Setter → Prop
  | .custom run =>
    ∀ target key v store, store.heap.Of known → (run target key v store).2.heap.Of known
  | _ => True

-- Two strategies that do the same with targets of the class.
def Getter.Matches (cls : Class) (g g' : Getter) : Prop :=
  ∀ k target key w, target.cls w.heap = cls →
    Run.readWith k g' target key w = Run.readWith k g target key w

def Setter.Matches (cls : Class) (s s' : Setter) : Prop :=
  ∀ target key v w, target.cls w.heap = cls →
    Run.writeWith s' target key v w = Run.writeWith s target key v w

theorem Getter.Matches.refl (cls : Class) (g : Getter) : g.Matches cls g := fun _ _ _ _ _ => rfl

theorem Setter.Matches.refl (cls : Class) (s : Setter) : s.Matches cls s := fun _ _ _ _ _ => rfl

-- Two sets of strategies, of which the second serves in place of the first one: what both choose
-- for known classes does the same, and they go on like that.
structure Interchange (known : Class → Prop) (S : Resolvers → Resolvers → Prop) : Prop where
  builtin : ∀ cls ∈ Class.builtin, known cls
  getter : ∀ {r r' cls}, S r r' → known cls →
    (r.chooseGetter cls).1.Matches cls (r'.chooseGetter cls).1 ∧
      S (r.chooseGetter cls).2 (r'.chooseGetter cls).2 ∧ (r.chooseGetter cls).1.Keeps known
  setter : ∀ {r r' cls}, S r r' → known cls →
    (r.chooseSetter cls).1.Matches cls (r'.chooseSetter cls).1 ∧
      S (r.chooseSetter cls).2 (r'.chooseSetter cls).2 ∧ (r.chooseSetter cls).1.Keeps known

-- Worlds with one store, and with strategies and sinks that belong together.
structure World.Abreast (known : Class → Prop) (S : Resolvers → Resolvers → Prop)
    (O : Sink → Sink → Prop) (w v : World) : Prop where
  store : v.store = w.store
  fit : w.heap.Of known
  resolvers : S w.resolvers v.resolvers
  sink : O w.sink v.sink

-- Nobody sees what either world puts out.
def Sink.Hushed (s t : Sink) : Prop := s = .discard ∧ t = .discard

-- The steps keep worlds together and have equal results.
abbrev WorldM.Lockstep (I : World → World → Prop) (act act' : WorldM ε α) : Prop :=
  Follows I I (Same I) act act'

variable {known : Class → Prop} {S : Resolvers → Resolvers → Prop} {O : Sink → Sink → Prop}

namespace World.Abreast

theorem setStore {w v : World} (h : Abreast known S O w v) {store : Store}
    (hstore : store.heap.Of known) : Abreast known S O { w with store } { v with store } :=
  ⟨rfl, hstore, h.resolvers, h.sink⟩

end World.Abreast

namespace WorldM

open World (Abreast)

variable {I : World → World → Prop}

theorem lockstep_pure (x : α) : Lockstep I (pure x : WorldM ε α) (pure x) :=
  .pure fun _ _ h => ⟨rfl, h⟩

theorem lockstep_fail (e : ε) : Lockstep I (fail e : WorldM ε α) (fail e) :=
  .throw (fun _ _ h => h) _

theorem lockstep_exhausted : Lockstep I (exhausted : WorldM ε α) exhausted :=
  .throw (fun _ _ h => h) _

theorem lockstep_ofExcept (r : Except ε α) : Lockstep I (ofExcept r) (ofExcept r) := by
  cases r with
  | error e => exact lockstep_fail e
  | ok x => exact lockstep_pure x

theorem lockstep_mapError {act act' : WorldM ε α} (f : ε → δ) (h : Lockstep I act act') :
    Lockstep I (mapError f act) (mapError f act') := by
  intro w v hI
  have hend := h w v hI
  unfold mapError
  generalize act w = end₁ at hend ⊢
  generalize act' v = end₂ at hend ⊢
  cases hend with
  | ok holds => exact .ok holds
  | stopped holds => exact .stopped holds

theorem lockstep_heap_bind {post : α → β → World → World → Prop} {rest : Heap → WorldM ε α}
    {rest' : Heap → WorldM ε β}
    (hrest : ∀ heap, heap.Of known →
      Follows (Abreast known S O) (Abreast known S O) post (rest heap) (rest' heap)) :
    Follows (Abreast known S O) (Abreast known S O) post (heap >>= rest) (heap >>= rest') := by
  intro w v hI
  have hend := hrest w.heap hI.fit w v hI
  change Agrees _ post (rest w.heap w) (rest' v.heap v)
  have hheap : v.heap = w.heap := congrArg Store.heap hI.store
  rw [hheap]
  exact hend

theorem lockstep_setHeap {heap : Heap} (hheap : heap.Of known) :
    Lockstep (Abreast known S O) (setHeap heap : WorldM ε Unit) (setHeap heap) := by
  intro w v hI
  have hstore : (v.setHeap heap).store = (w.setHeap heap).store := by
    unfold World.setHeap
    rw [hI.store]
  exact .ok ⟨rfl, hstore, hheap, hI.resolvers, hI.sink⟩

theorem lockstep_onStore {act : Store → Except ε α × Store}
    (hact : ∀ store, store.heap.Of known → (act store).2.heap.Of known) :
    Lockstep (Abreast known S O) (onStore act) (onStore act) := by
  intro w v hI
  have hkept := hact w.store hI.fit
  unfold onStore
  rw [hI.store]
  generalize act w.store = reached at hkept ⊢
  obtain ⟨result, store⟩ := reached
  cases result with
  | ok x => exact .ok ⟨rfl, hI.setStore hkept⟩
  | error e => exact .stopped (hI.setStore hkept)

theorem lockstep_silently {act act' : WorldM ε α}
    (h : Lockstep (Abreast known S Sink.Hushed) act act') :
    Lockstep (Abreast known S O) (silently act) (silently act') := by
  intro w v hI
  have hhushed : Abreast known S Sink.Hushed { w with sink := .discard }
      { v with sink := .discard } :=
    ⟨hI.store, hI.fit, hI.resolvers, rfl, rfl⟩
  refine (h _ _ hhushed).leave (f := fun u => { u with sink := w.sink })
    (g := fun u => { u with sink := v.sink }) ?_ ?_
  · intro x y u u' hsame
    exact ⟨hsame.1, hsame.2.store, hsame.2.fit, hsame.2.resolvers, hI.sink⟩
  · intro u u' hend
    exact ⟨hend.store, hend.fit, hend.resolvers, hI.sink⟩

theorem lockstep_newList (items : List Value) :
    Lockstep (Abreast known S O) (newList items : WorldM ε Value) (newList items) := by
  refine lockstep_heap_bind fun heap hheap => ?_
  exact .bind_same (lockstep_setHeap hheap) fun _ => lockstep_pure _

theorem lockstep_newIter (it : Iterator) :
    Lockstep (Abreast known S O) (newIter it : WorldM ε Nat) (newIter it) := by
  refine lockstep_heap_bind fun heap hheap => ?_
  exact .bind_same (lockstep_setHeap hheap) fun _ => lockstep_pure _

end WorldM

namespace Run

open Resolve WorldM
open World (Abreast)

variable {k : Linkage}
  (hk : ∀ ref, Lockstep (Abreast known S O) (k.hasNext ref) (k.hasNext ref))

include hk in
theorem readStatus_lockstep (ref : Nat) (status : LoopStatus) :
    Lockstep (Abreast known S O) (readStatus k ref status) (readStatus k ref status) := by
  refine lockstep_heap_bind fun heap _ => ?_
  cases status with
  | hasNext => exact .bind_same (hk ref) fun _ => lockstep_pure _
  | isLast => exact .bind_same (hk ref) fun _ => lockstep_pure _
  | _ => exact lockstep_pure _

include hk in
theorem readIter_lockstep (target key : Value) :
    Lockstep (Abreast known S O) (readIter k target key) (readIter k target key) := by
  refine lockstep_heap_bind fun heap _ => ?_
  split
  · exact readStatus_lockstep hk _ _
  · exact lockstep_fail _

include hk in
theorem readWith_lockstep {getter : Getter} (hgetter : getter.Keeps known) (target key : Value) :
    Lockstep (Abreast known S O) (readWith k getter target key) (readWith k getter target key) := by
  refine lockstep_heap_bind fun heap _ => ?_
  cases getter with
  | list =>
      simp only [locking_getList, pure_bind]
      exact lockstep_ofExcept _
  | map =>
      simp only [locking_getMap, pure_bind]
      exact lockstep_ofExcept _
  | iter => exact readIter_lockstep hk target key
  | custom run => exact lockstep_onStore (hgetter target key)
  | _ => exact lockstep_ofExcept _

theorem store_lockstep {heap : Option Heap} (hheap : ∀ h, heap = some h → h.Of known) :
    Lockstep (Abreast known S O) (store heap) (store heap) := by
  cases heap with
  | none => exact lockstep_pure _
  | some heap => exact .bind_same (lockstep_setHeap (hheap heap rfl)) fun _ => lockstep_pure _

theorem writeField_of {heap written : Heap} (hheap : heap.Of known) {field : Option Field}
    {target v : Value} (h : writeField heap field target v = some written) : written.Of known := by
  unfold writeField at h
  split at h
  · obtain ⟨object, -, h⟩ := Option.bind_eq_some_iff.mp h
    obtain ⟨write, -, h⟩ := Option.bind_eq_some_iff.mp h
    obtain ⟨state, -, rfl⟩ := Option.map_eq_some_iff.mp h
    exact hheap.setState _ state
  · cases h

theorem writeList_of {heap written : Heap} (hheap : heap.Of known) {target key v : Value}
    (h : writeList heap target key v = .ok (some written)) : written.Of known := by
  unfold writeList at h
  split at h
  · rename_i ref index
    cases hchecked : checkedIndex index (heap.items ref).length with
    | error fault =>
        rw [hchecked] at h
        cases h
    | ok i =>
        rw [hchecked] at h
        cases h
        exact hheap
  · cases h

theorem writeWith_lockstep {setter : Setter} (hsetter : setter.Keeps known)
    (target key v : Value) :
    Lockstep (Abreast known S O) (writeWith setter target key v)
      (writeWith setter target key v) := by
  refine lockstep_heap_bind fun heap hheap => ?_
  cases setter with
  | common => exact store_lockstep fun _ => writeField_of hheap
  | fieldTable cls => exact store_lockstep fun _ => writeField_of hheap
  | list =>
      simp only [locking_setList, pure_bind]
      cases hwritten : writeList heap target key v with
      | error fault => exact lockstep_fail fault
      | ok written =>
          have hkept : ∀ h, written = some h → h.Of known := by
            intro h hsome
            rw [hsome] at hwritten
            exact writeList_of hheap hwritten
          exact store_lockstep hkept
  | map =>
      by_cases hwaits : Waits heap target key
      · simp only [locking_setMap_of_waits hwaits]
        exact lockstep_exhausted
      · simp only [locking_setMap hwaits, pure_bind]
        refine store_lockstep ?_
        intro h hsome
        unfold writeMap at hsome
        split at hsome
        · cases hsome
          exact hheap
        · cases hsome
  | custom run => exact lockstep_onStore (hsetter target key v)

-- What both choose for the class of the value does the same with it.
theorem choose_bind_matching {pick : Resolvers → Class → R × Resolvers} {P : R → Prop}
    {M : Class → R → R → Prop} (hbuiltin : ∀ cls ∈ Class.builtin, known cls)
    (hpick : ∀ {r r' cls}, S r r' → known cls → M cls (pick r cls).1 (pick r' cls).1 ∧
      S (pick r cls).2 (pick r' cls).2 ∧ P (pick r cls).1) (v : Value) {rest : R → WorldM Fault α}
    (hrest : ∀ strategy strategy' w u, P strategy → M (v.cls u.heap) strategy strategy' →
      Abreast known S O w u →
        Agrees (Abreast known S O) (Same (Abreast known S O)) (rest strategy w)
          (rest strategy' u)) :
    Lockstep (Abreast known S O) (choose pick v >>= rest) (choose pick v >>= rest) := by
  intro w u hI
  have hheap : u.heap = w.heap := congrArg Store.heap hI.store
  obtain ⟨hmatch, hkept, hP⟩ := hpick hI.resolvers (hI.fit.cls hbuiltin v)
  rw [← hheap] at hmatch hkept hP
  change Agrees _ _ (rest (pick w.resolvers (v.cls w.heap)).1 _)
    (rest (pick u.resolvers (v.cls u.heap)).1 _)
  rw [← hheap]
  exact hrest _ _ _ _ hP hmatch ⟨hI.store, hI.fit, hkept, hI.sink⟩

-- Both choose the same strategy for the class of the value.
theorem choose_bind_lockstep {pick : Resolvers → Class → R × Resolvers} {P : R → Prop}
    (hbuiltin : ∀ cls ∈ Class.builtin, known cls)
    (hpick : ∀ {r r' cls}, S r r' → known cls → (pick r' cls).1 = (pick r cls).1 ∧
      S (pick r cls).2 (pick r' cls).2 ∧ P (pick r cls).1) (v : Value) {rest : R → WorldM Fault α}
    (hrest : ∀ strategy, P strategy →
      Lockstep (Abreast known S O) (rest strategy) (rest strategy)) :
    Lockstep (Abreast known S O) (choose pick v >>= rest) (choose pick v >>= rest) := by
  refine choose_bind_matching (M := fun _ strategy strategy' => strategy' = strategy) hbuiltin
    hpick v ?_
  intro strategy strategy' w u hP hsame hI
  rw [hsame]
  exact hrest strategy hP w u hI

include hk in
theorem getProperty_lockstep (hS : Interchange known S) (target key : Value) :
    Lockstep (Abreast known S O) (getProperty k target key) (getProperty k target key) := by
  unfold getProperty
  split
  · exact lockstep_pure _
  · refine choose_bind_matching hS.builtin hS.getter target ?_
    intro getter getter' w u hgetter hmatch hI
    rw [hmatch k target key u rfl]
    exact readWith_lockstep hk hgetter target key w u hI

theorem setProperty_lockstep (hS : Interchange known S) (target key v : Value) :
    Lockstep (Abreast known S O) (setProperty target key v) (setProperty target key v) := by
  unfold setProperty
  split
  · exact lockstep_pure _
  · refine choose_bind_matching hS.builtin hS.setter target ?_
    intro setter setter' w u hsetter hmatch hI
    rw [hmatch target key v u rfl]
    exact writeWith_lockstep hsetter target key v w u hI

end Run

namespace Iterator

open World (Abreast)

-- Asking leaves the same behind twice, in worlds that stay together.
inductive Pulled.Lockstep (I : World → World → Prop) : Pulled α → Pulled α → Prop
  | intro (result : Except (Halt Fault) α) (it : Iterator) {w u : World} (h : I w u) :
      Lockstep I ⟨result, it, w⟩ ⟨result, it, u⟩

variable {ask : Method → Value → WorldM Fault Value} {w u : World}

theorem Pulled.Lockstep.store {p p' : Pulled α} (h : p.Lockstep (Abreast known S O) p')
    (ref : Nat) :
    (p.store ref).Lockstep (Abreast known S O) (p'.store ref) := by
  cases h with
  | @intro result it w u hI =>
      have hheap : u.heap = w.heap := congrArg Store.heap hI.store
      have hstore : (u.setHeap (w.heap.setIter ref it)).store =
          (w.setHeap (w.heap.setIter ref it)).store := by
        simp only [World.setHeap, hI.store]
      simp only [Pulled.store, hheap]
      exact .intro result (.shared ref) ⟨hstore, hI.fit, hI.resolvers, hI.sink⟩

theorem Pulled.Lockstep.mapIter {p p' : Pulled α} {I : World → World → Prop} (h : p.Lockstep I p')
    (f : Iterator → Iterator) : (p.mapIter f).Lockstep I (p'.mapIter f) := by
  cases h with
  | intro result it hI => exact .intro result (f it) hI

-- Both ways of asking call each other, so they go through the fuel together.
structure PullsTogether (known : Class → Prop) (S : Resolvers → Resolvers → Prop)
    (O : Sink → Sink → Prop) (ask : Method → Value → WorldM Fault Value) (fuel : Nat) : Prop where
  hasNext : ∀ it w u, Abreast known S O w u →
    (hasNext ask fuel it w).Lockstep (Abreast known S O) (hasNext ask fuel it u)
  next : ∀ it w u, Abreast known S O w u →
    (next ask fuel it w).Lockstep (Abreast known S O) (next ask fuel it u)

variable (hask : ∀ method item,
  WorldM.Lockstep (Abreast known S O) (ask method item) (ask method item))

include hask

theorem hasNext_lockstep {fuel : Nat} (ih : PullsTogether known S O ask fuel) (it : Iterator)
    (hI : Abreast known S O w u) :
    (hasNext ask (fuel + 1) it w).Lockstep (Abreast known S O) (hasNext ask (fuel + 1) it u) := by
  have hheap : u.heap = w.heap := congrArg Store.heap hI.store
  cases it with
  | items rest cursor => exact .intro _ _ hI
  | range next last cursor => exact .intro _ _ hI
  | shared ref =>
      simp only [hasNext, hheap]
      cases w.heap.iters[ref]? with
      | none => exact .intro _ _ hI
      | some inner => exact (ih.hasNext inner w u hI).store ref
  | mapped source change =>
      simp only [hasNext]
      exact (ih.hasNext source w u hI).mapIter (.mapped · change)
  | filtered source test pending cursor =>
      cases pending with
      | some item => exact .intro _ _ hI
      | none =>
          simp only [hasNext]
          have hasked := ih.hasNext source w u hI
          generalize hasNext ask fuel source w = asked at hasked ⊢
          generalize hasNext ask fuel source u = asked' at hasked ⊢
          obtain ⟨more, source₁, hI₁⟩ := hasked
          rename_i w₁ u₁
          rcases more with e | more
          · exact .intro _ _ hI₁
          cases more with
          | false => exact .intro _ _ hI₁
          | true =>
              have hread := ih.next source₁ w₁ u₁ hI₁
              generalize next ask fuel source₁ w₁ = read at hread ⊢
              generalize next ask fuel source₁ u₁ = read' at hread ⊢
              obtain ⟨item, source₂, hI₂⟩ := hread
              rename_i w₂ u₂
              rcases item with e | item
              · exact .intro _ _ hI₂
              have htested := hask test item w₂ u₂ hI₂
              simp only
              generalize ask test item w₂ = tested at htested ⊢
              generalize ask test item u₂ = tested' at htested ⊢
              cases htested with
              | stopped hI₃ => exact .intro _ _ hI₃
              | @ok verdict _ w₃ u₃ hsame =>
                  obtain ⟨rfl, hI₃⟩ := hsame
                  have hheap₃ : u₃.heap = w₃.heap := congrArg Store.heap hI₃.store
                  simp only [hheap₃]
                  split
                  · exact .intro _ _ hI₃
                  · exact ih.hasNext _ w₃ u₃ hI₃

theorem next_lockstep {fuel : Nat} (ih : PullsTogether known S O ask fuel) (it : Iterator)
    (hI : Abreast known S O w u) :
    (next ask (fuel + 1) it w).Lockstep (Abreast known S O) (next ask (fuel + 1) it u) := by
  have hheap : u.heap = w.heap := congrArg Store.heap hI.store
  cases it with
  | items rest cursor =>
      cases rest with
      | nil => exact .intro _ _ hI
      | cons item rest => exact .intro _ _ hI
  | range current last cursor =>
      cases current with
      | none => exact .intro _ _ hI
      | some current => exact .intro _ _ hI
  | shared ref =>
      simp only [next, hheap]
      cases w.heap.iters[ref]? with
      | none => exact .intro _ _ hI
      | some inner => exact (ih.next inner w u hI).store ref
  | mapped source change =>
      simp only [next]
      have hread := ih.next source w u hI
      generalize next ask fuel source w = read at hread ⊢
      generalize next ask fuel source u = read' at hread ⊢
      obtain ⟨item, source₁, hI₁⟩ := hread
      rename_i w₁ u₁
      rcases item with e | item
      · exact .intro _ _ hI₁
      have hchanged := hask change item w₁ u₁ hI₁
      simp only
      generalize ask change item w₁ = changed at hchanged ⊢
      generalize ask change item u₁ = changed' at hchanged ⊢
      cases hchanged with
      | stopped hI₂ => exact .intro _ _ hI₂
      | ok hsame =>
          obtain ⟨rfl, hI₂⟩ := hsame
          exact .intro _ _ hI₂
  | filtered source test pending cursor =>
      cases pending with
      | some item => exact .intro _ _ hI
      | none =>
          simp only [next]
          have hasked := ih.hasNext (.filtered source test none cursor) w u hI
          generalize hasNext ask fuel (.filtered source test none cursor) w = asked at hasked ⊢
          generalize hasNext ask fuel (.filtered source test none cursor) u = asked' at hasked ⊢
          obtain ⟨more, it, hI₁⟩ := hasked
          rcases more with e | more
          · exact .intro _ _ hI₁
          cases more with
          | false => exact .intro _ _ hI₁
          | true =>
              cases it with
              | filtered source test pending cursor =>
                  cases pending with
                  | none => exact .intro _ _ hI₁
                  | some item => exact .intro _ _ hI₁
              | _ => exact .intro _ _ hI₁

theorem pulls_together (fuel : Nat) : PullsTogether known S O ask fuel := by
  induction fuel with
  | zero => exact ⟨fun _ _ _ hI => .intro _ _ hI, fun _ _ _ hI => .intro _ _ hI⟩
  | succ fuel ih =>
      constructor
      · intro it w u hI
        exact hasNext_lockstep hask ih it hI
      · intro it w u hI
        exact next_lockstep hask ih it hI

theorem hasNextIn_lockstep (fuel ref : Nat) :
    WorldM.Lockstep (Abreast known S O) (hasNextIn ask fuel ref) (hasNextIn ask fuel ref) := by
  intro w u hI
  have hend := (pulls_together hask fuel).hasNext (.shared ref) w u hI
  unfold hasNextIn
  generalize hasNext ask fuel (.shared ref) w = p at hend ⊢
  generalize hasNext ask fuel (.shared ref) u = p' at hend ⊢
  cases hend with
  | intro result it hI =>
      cases result with
      | error e => exact .stopped hI
      | ok more => exact .ok ⟨rfl, hI⟩

theorem nextIn_lockstep (fuel ref : Nat) :
    WorldM.Lockstep (Abreast known S O) (nextIn ask fuel ref) (nextIn ask fuel ref) := by
  intro w u hI
  have hend := (pulls_together hask fuel).next (.shared ref) w u hI
  unfold nextIn
  generalize next ask fuel (.shared ref) w = p at hend ⊢
  generalize next ask fuel (.shared ref) u = p' at hend ⊢
  cases hend with
  | intro result it hI =>
      cases result with
      | error e => exact .stopped hI
      | ok item => exact .ok ⟨rfl, hI⟩

end Iterator

end Stencil
