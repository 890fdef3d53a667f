import Stencil.Proofs.Resolve.Kinds
import Stencil.Proofs.Tree.Places
import Stencil.Run.Call

namespace Stencil

-- A shared cell by its kind.
inductive Cell where
  | list (ref : Nat)
  | map (ref : Nat)
  | iter (ref : Nat)
  | host (ref : Nat)

def Heap.Allocated (heap : Heap) : Cell → Prop
  | .list ref => ref < heap.lists.size
  | .map ref => ref < heap.maps.size
  | .iter ref => ref < heap.iters.size
  | .host ref => ref < heap.hosts.size

-- What a run can come upon: functions with places of these, and these shared cells.
structure Realm where
  places : Position → Prop
  cells : Cell → Prop

-- A run of code without functions of its own, among the same cells.
def Realm.bare (cells : Cell → Prop) : Realm := ⟨fun _ => False, cells⟩

variable {R : Realm}

def Value.Within (R : Realm) : Value → Prop
  | .list ref => R.cells (.list ref)
  | .map ref => R.cells (.map ref)
  | .iter ref => R.cells (.iter ref)
  | .host ref => R.cells (.host ref)
  | .function _ decl => ∀ pos ∈ decl.places, R.places pos
  | .null | .bool _ | .int _ | .float _ | .str _ | .bytes _ | .range _ _ | .native _ _ => True

def Method.Within (R : Realm) : Method → Prop
  | .script callee pos => callee.Within R ∧ R.places pos
  | .native _ => True

def Iterator.Within (R : Realm) : Iterator → Prop
  | .items rest _ => ∀ v ∈ rest, v.Within R
  | .range _ _ _ => True
  | .shared ref => R.cells (.iter ref)
  | .filtered source test pending _ =>
    source.Within R ∧ test.Within R ∧ ∀ v, pending = some v → v.Within R
  | .mapped source change => source.Within R ∧ change.Within R

def HostState.Within (R : Realm) (s : HostState) : Prop := ∀ v ∈ s.slots, v.Within R

-- Fields read what is in their object and write what they are given, whatever functions there are.
structure Field.Plain (cells : Cell → Prop) (f : Field) : Prop where
  read : ∀ {places state v}, state.Within ⟨places, cells⟩ → f.read state = some v →
    v.Within ⟨places, cells⟩
  write : ∀ {places write state v state'}, f.write = some write → state.Within ⟨places, cells⟩ →
    v.Within ⟨places, cells⟩ → write state v = some state' → state'.Within ⟨places, cells⟩

def Class.Plain (cells : Cell → Prop) (c : Class) : Prop := ∀ f ∈ c.fields, f.Plain cells

structure HostObject.Plain (cells : Cell → Prop) (object : HostObject) : Prop where
  cls : object.cls.Plain cells
  iterate : ∀ {places state it}, state.Within ⟨places, cells⟩ → object.iterate state = some it →
    it.Within ⟨places, cells⟩

-- The cells of the realm hold nothing from outside. Cells that do not exist yet are part of it.
structure Heap.Within (R : Realm) (heap : Heap) : Prop where
  items : ∀ {ref}, R.cells (.list ref) → ∀ v ∈ heap.items ref, v.Within R
  entries : ∀ {ref}, R.cells (.map ref) → ∀ entry ∈ heap.entries ref, entry.2.Within R
  iters : ∀ {ref it}, R.cells (.iter ref) → heap.iters[ref]? = some it → it.Within R
  hosts : ∀ {ref object}, R.cells (.host ref) → heap.hosts[ref]? = some object →
    object.Plain R.cells ∧ object.state.Within R
  fresh : ∀ {cell}, ¬ heap.Allocated cell → R.cells cell

-- More functions do not take anything out of the realm.
section Bare

variable {cells : Cell → Prop} {places : Position → Prop}

theorem Value.Within.of_bare {v : Value} (h : v.Within (.bare cells)) :
    v.Within ⟨places, cells⟩ := by
  cases v with
  | function origin decl => exact absurd (h decl.pos (by simp [FunctionDecl.places])) id
  | _ => exact h

theorem Method.Within.of_bare {m : Method} (h : m.Within (.bare cells)) :
    m.Within ⟨places, cells⟩ := by
  cases m with
  | script callee pos => exact absurd h.2 id
  | native ref => trivial

theorem Iterator.Within.of_bare {it : Iterator} (h : it.Within (.bare cells)) :
    it.Within ⟨places, cells⟩ := by
  induction it with
  | items rest cursor => exact fun v hv => (h v hv).of_bare
  | range next last cursor => trivial
  | shared ref => exact h
  | filtered source test pending cursor ih =>
      exact ⟨ih h.1, h.2.1.of_bare, fun v hv => (h.2.2 v hv).of_bare⟩
  | mapped source change ih => exact ⟨ih h.1, h.2.of_bare⟩

theorem Heap.Within.of_bare {heap : Heap} (h : heap.Within (.bare cells)) :
    heap.Within ⟨places, cells⟩ where
  items href v hv := (h.items href v hv).of_bare
  entries href entry hentry := (h.entries href entry hentry).of_bare
  iters href hit := (h.iters href hit).of_bare
  hosts href hobject := by
    obtain ⟨hplain, hstate⟩ := h.hosts href hobject
    exact ⟨hplain, fun v hv => (hstate v hv).of_bare⟩
  fresh hcell := h.fresh hcell

end Bare

theorem Value.within_ofLiteral (l : Literal) : (Value.ofLiteral l).Within R := by
  cases l <;> trivial

-- What stands for a literal needs no realm.
theorem Value.within_of_isImmutable {v : Value} (h : v.isImmutable = true) : v.Within R := by
  cases v <;> trivial

namespace Heap.Within

variable {heap : Heap} (h : heap.Within R)

include h

theorem newList {items : List Value} (hitems : ∀ v ∈ items, v.Within R) :
    (heap.newList items).1.Within R ∧ (heap.newList items).2.Within R := by
  have hcell : R.cells (.list heap.lists.size) := h.fresh (Nat.lt_irrefl _)
  refine ⟨hcell, ?_, h.entries, h.iters, h.hosts, ?_⟩
  · intro ref href v hv
    simp only [Heap.newList, Heap.items, Array.getD_eq_getD_getElem?, Array.getElem?_push] at hv
    split at hv
    · exact hitems v hv
    · refine h.items href v ?_
      rwa [Heap.items, Array.getD_eq_getD_getElem?]
  · intro cell hcell
    refine h.fresh ?_
    intro hallocated
    refine hcell ?_
    cases cell with
    | list ref =>
        simp only [Heap.Allocated, Heap.newList, Array.size_push] at hallocated ⊢
        omega
    | _ => exact hallocated

theorem newIter {it : Iterator} (hit : it.Within R) :
    (heap.newIter it).1.Within R ∧ (heap.newIter it).2.Within R := by
  have hcell : R.cells (.iter heap.iters.size) := h.fresh (Nat.lt_irrefl _)
  refine ⟨hcell, h.items, h.entries, ?_, h.hosts, ?_⟩
  · intro ref it' href hit'
    simp only [Heap.newIter, Array.getElem?_push] at hit'
    split at hit'
    · cases hit'
      exact hit
    · exact h.iters href hit'
  · intro cell hcell
    refine h.fresh ?_
    intro hallocated
    refine hcell ?_
    cases cell with
    | iter ref =>
        simp only [Heap.Allocated, Heap.newIter, Array.size_push] at hallocated ⊢
        omega
    | _ => exact hallocated

-- Cells that are there already are only filled anew.
theorem refill {heap' : Heap} (hcells : ∀ cell, heap.Allocated cell → heap'.Allocated cell)
    (hitems : ∀ {ref}, R.cells (.list ref) → ∀ v ∈ heap'.items ref, v.Within R)
    (hentries : ∀ {ref}, R.cells (.map ref) → ∀ entry ∈ heap'.entries ref, entry.2.Within R)
    (hiters : ∀ {ref it}, R.cells (.iter ref) → heap'.iters[ref]? = some it → it.Within R)
    (hhosts : ∀ {ref object}, R.cells (.host ref) → heap'.hosts[ref]? = some object →
      object.Plain R.cells ∧ object.state.Within R) : heap'.Within R :=
  ⟨hitems, hentries, hiters, hhosts, fun hcell => h.fresh fun hold => hcell (hcells _ hold)⟩

theorem setItems (ref : Nat) {items : List Value} (hitems : ∀ v ∈ items, v.Within R) :
    (heap.setItems ref items).Within R := by
  refine h.refill ?_ ?_ h.entries h.iters h.hosts
  · intro cell hcell
    cases cell <;> simpa [Heap.Allocated, Heap.setItems] using hcell
  · intro other hother v hv
    simp only [Heap.setItems, Heap.items, Array.getD_eq_getD_getElem?,
      Array.getElem?_setIfInBounds] at hv
    split at hv
    · split at hv
      · exact hitems v hv
      · simp at hv
    · refine h.items hother v ?_
      rwa [Heap.items, Array.getD_eq_getD_getElem?]

theorem setEntries (ref : Nat) {entries : List (String × Value)}
    (hentries : ∀ entry ∈ entries, entry.2.Within R) : (heap.setEntries ref entries).Within R := by
  refine h.refill ?_ h.items ?_ h.iters h.hosts
  · intro cell hcell
    cases cell <;> simpa [Heap.Allocated, Heap.setEntries] using hcell
  · intro other hother v hv
    simp only [Heap.setEntries, Heap.entries, Array.getD_eq_getD_getElem?,
      Array.getElem?_setIfInBounds] at hv
    split at hv
    · split at hv
      · exact hentries v hv
      · simp at hv
    · refine h.entries hother v ?_
      rwa [Heap.entries, Array.getD_eq_getD_getElem?]

theorem setIter (ref : Nat) {it : Iterator} (hit : it.Within R) :
    (heap.setIter ref it).Within R := by
  refine h.refill ?_ h.items h.entries ?_ h.hosts
  · intro cell hcell
    cases cell <;> simpa [Heap.Allocated, Heap.setIter] using hcell
  · intro other it' hother hit'
    simp only [Heap.setIter, Array.getElem?_setIfInBounds] at hit'
    split at hit'
    · split at hit'
      · cases hit'
        exact hit
      · cases hit'
    · exact h.iters hother hit'

theorem setState (ref : Nat) {state : HostState} (hstate : state.Within R) :
    (heap.setState ref state).Within R := by
  refine h.refill ?_ h.items h.entries h.iters ?_
  · intro cell hcell
    cases cell <;> simpa [Heap.Allocated, Heap.setState] using hcell
  · intro other object hother hobject
    simp only [Heap.setState, Array.getElem?_modify] at hobject
    split at hobject
    · obtain ⟨old, hold, rfl⟩ := Option.map_eq_some_iff.mp hobject
      exact ⟨⟨(h.hosts hother hold).1.cls, (h.hosts hother hold).1.iterate⟩, hstate⟩
    · exact h.hosts hother hobject

theorem cls {v : Value} (hv : v.Within R) : (v.cls heap).Plain R.cells := by
  cases v with
  | host ref =>
      simp only [Value.cls]
      cases hobject : heap.hosts[ref]? with
      | none => exact List.forall_mem_nil _
      | some object => exact (h.hosts hv hobject).1.cls
  | _ => exact List.forall_mem_nil _

end Heap.Within

theorem Heap.putEntry_within {key : String} {v : Value} (hv : v.Within R)
    {entries : List (String × Value)} (h : ∀ entry ∈ entries, entry.2.Within R) :
    ∀ entry ∈ Heap.putEntry key v entries, entry.2.Within R := by
  induction entries with
  | nil => exact List.forall_mem_singleton.mpr hv
  | cons first rest ih =>
      obtain ⟨hfirst, hrest⟩ := List.forall_mem_cons.mp h
      unfold Heap.putEntry
      split
      · exact List.forall_mem_cons.mpr ⟨hv, hrest⟩
      · exact List.forall_mem_cons.mpr ⟨hfirst, ih hrest⟩

end Stencil
