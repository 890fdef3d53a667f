import Stencil.Proofs.Resolve.Blind
import Stencil.Proofs.Resolve.Choice
import Stencil.Proofs.Run.Follow
import Stencil.Proofs.Run.Waiting
import Stencil.Run.Call

namespace Stencil

-- Strategies for writing that are not those of a host.
def Setter.IsBuiltin : Setter → Prop
  | .custom _ => False
  | _ => True

namespace Resolvers

-- Lists and maps are read and written in their own way, and nothing of a host is written with.
structure Builtin (r : Resolvers) : Prop where
  listGetter : r.getters.find? .list = some .list
  mapGetter : r.getters.find? .map = some .map
  listSetter : r.setters.find? .list = some .list
  mapSetter : r.setters.find? .map = some .map
  setters : r.setters.All Setter.IsBuiltin

theorem builtin_withDefaults (generate : Bool) : (withDefaults [] generate).Builtin where
  listGetter := rfl
  mapGetter := rfl
  listSetter := rfl
  mapSetter := rfl
  setters := by
    refine ⟨?_, ?_⟩
    · exact List.forall_mem_cons.mpr ⟨trivial, List.forall_mem_singleton.mpr trivial⟩
    · exact List.forall_mem_nil _

end Resolvers

theorem Tier.find?_settle_of_some {t : Tier R} {cls other : Class} {strategy found : R}
    (h : t.find? other = some found) : (t.settle cls strategy).find? other = some found := by
  rw [find?_settle, h, Option.some_or]

namespace Resolvers

variable {r : Resolvers}

theorem exists_accessors (r : Resolvers) (cls : Class) :
    ∃ accessors, (r.accessor cls).2 = { r with accessors } := by
  unfold accessor
  split
  · exact ⟨_, rfl⟩
  · exact ⟨r.accessors, rfl⟩

namespace Builtin

theorem chooseGetter (h : r.Builtin) (cls : Class) : (r.chooseGetter cls).2.Builtin := by
  have hsettle : ∀ (getter : Getter) (kept : Resolvers), kept.Builtin →
      { kept with getters := kept.getters.settle cls getter }.Builtin :=
    fun getter kept hkept => ⟨Tier.find?_settle_of_some hkept.listGetter,
      Tier.find?_settle_of_some hkept.mapGetter, hkept.listSetter, hkept.mapSetter, hkept.setters⟩
  obtain ⟨accessors, hkept⟩ := r.exists_accessors cls
  have hmade : (r.accessor cls).2.Builtin := hkept ▸ ⟨h.1, h.2, h.3, h.4, h.5⟩
  unfold Resolvers.chooseGetter
  split
  · exact h
  · dsimp only
    split
    · exact hsettle _ r h
    · split
      · rename_i heq
        rw [heq] at hmade
        exact hsettle _ _ hmade
      · rename_i heq
        rw [heq] at hmade
        exact hsettle _ _ hmade

theorem chooseSetter (h : r.Builtin) (cls : Class) :
    (r.chooseSetter cls).1.IsBuiltin ∧ (r.chooseSetter cls).2.Builtin := by
  have hsettle : ∀ (setter : Setter) (kept : Resolvers), setter.IsBuiltin → kept.Builtin →
      setter.IsBuiltin ∧ { kept with setters := kept.setters.settle cls setter }.Builtin :=
    fun setter kept hsetter hkept => ⟨hsetter, hkept.listGetter, hkept.mapGetter,
      Tier.find?_settle_of_some hkept.listSetter, Tier.find?_settle_of_some hkept.mapSetter,
      hkept.setters.settle cls hsetter⟩
  obtain ⟨accessors, hkept⟩ := r.exists_accessors cls
  have hmade : (r.accessor cls).2.Builtin := hkept ▸ ⟨h.1, h.2, h.3, h.4, h.5⟩
  unfold Resolvers.chooseSetter
  split
  · rename_i setter hfound
    exact ⟨h.setters.find? hfound, h⟩
  · dsimp only
    split
    · rename_i setter hfound
      exact hsettle _ r (h.setters.findAssignable? hfound) h
    · split
      · rename_i heq
        rw [heq] at hmade
        exact hsettle _ _ trivial hmade
      · rename_i heq
        rw [heq] at hmade
        exact hsettle _ _ trivial hmade

theorem look (h : r.Builtin) (lookup : Lookup) : (r.look lookup).Builtin := by
  cases lookup with
  | get cls => exact h.chooseGetter cls
  | set cls => exact (h.chooseSetter cls).2
  | toBytes cls =>
      rw [Resolvers.look, Resolvers.chooseSerializer]
      split
      · exact h
      · exact ⟨h.1, h.2, h.3, h.4, h.5⟩

theorem after (h : r.Builtin) (history : List Lookup) : (r.after history).Builtin := by
  induction history generalizing r with
  | nil => exact h
  | cons lookup rest ih => exact ih (h.look lookup)

end Builtin

end Resolvers

theorem lookup_eq_none_of_notMem {entries : List (String × α)} {key : String}
    (h : key ∉ entries.map Prod.fst) : entries.lookup key = none := by
  rw [List.lookup_eq_none_iff]
  intro e he
  rw [bne_iff_ne]
  rintro rfl
  exact h (List.mem_map_of_mem he)

-- What is at a place of a container.
def Content.at? : Content → Branch → Option Value
  | .list items, .item i => items[i]?
  | .map entries, .entry key => entries.lookup key
  | _, _ => none

-- One place of a container is set. An element is replaced, and so is the first entry of the key; a
-- new key comes last.
inductive Content.Sets : Content → Branch → Value → Content → Prop
  | item {before rest : List Value} {old v : Value} :
      Sets (.list (before ++ old :: rest)) (.item before.length) v (.list (before ++ v :: rest))
  | replaced {before rest : List (String × Value)} {key : String} {old v : Value}
      (hkey : key ∉ before.map Prod.fst) :
      Sets (.map (before ++ (key, old) :: rest)) (.entry key) v
        (.map (before ++ (key, v) :: rest))
  | added {entries : List (String × Value)} {key : String} {v : Value}
      (hkey : key ∉ entries.map Prod.fst) :
      Sets (.map entries) (.entry key) v (.map (entries ++ [(key, v)]))

namespace Content.Sets

theorem putEntry (key : String) (v : Value) (entries : List (String × Value)) :
    Sets (.map entries) (.entry key) v (.map (Heap.putEntry key v entries)) := by
  have hsplit : key ∉ entries.map Prod.fst ∧ Heap.putEntry key v entries = entries ++ [(key, v)] ∨
      ∃ before old rest, key ∉ before.map Prod.fst ∧ entries = before ++ (key, old) :: rest ∧
        Heap.putEntry key v entries = before ++ (key, v) :: rest := by
    induction entries with
    | nil => exact .inl ⟨List.not_mem_nil, rfl⟩
    | cons e entries ih =>
        obtain ⟨k, old⟩ := e
        by_cases hkey : k = key
        · subst hkey
          exact .inr ⟨[], old, entries, List.not_mem_nil, rfl, by simp [Heap.putEntry]⟩
        · rw [Heap.putEntry, if_neg hkey]
          rcases ih with ⟨hnew, hput⟩ | ⟨before, old', rest, hnew, rfl, hput⟩
          · refine .inl ⟨?_, by rw [hput]; rfl⟩
            rw [List.map_cons, List.mem_cons, not_or]
            exact ⟨Ne.symm hkey, hnew⟩
          · refine .inr ⟨(k, old) :: before, old', rest, ?_, rfl, by rw [hput]; rfl⟩
            rw [List.map_cons, List.mem_cons, not_or]
            exact ⟨Ne.symm hkey, hnew⟩
  rcases hsplit with ⟨hnew, hput⟩ | ⟨before, old, rest, hnew, rfl, hput⟩
  · rw [hput]
    exact .added hnew
  · rw [hput]
    exact .replaced hnew

theorem set {items : List Value} {i : Nat} (hi : i < items.length) (v : Value) :
    Sets (.list items) (.item i) v (.list (items.set i v)) := by
  have hitems : items = items.take i ++ items[i] :: items.drop (i + 1) := by
    rw [List.getElem_cons_drop, List.take_append_drop]
  have hset : items.set i v = items.take i ++ v :: items.drop (i + 1) :=
    List.set_eq_take_append_cons_drop.trans (if_pos hi)
  have hlength : (items.take i).length = i := List.length_take_of_le hi.le
  have h : Sets (.list (items.take i ++ items[i] :: items.drop (i + 1)))
      (.item (items.take i).length) v (.list (items.take i ++ v :: items.drop (i + 1))) := .item
  rwa [← hitems, ← hset, hlength] at h

variable {x y : Content} {step : Branch} {v : Value}

-- What is set is found there.
theorem at?_self (h : Sets x step v y) : y.at? step = some v := by
  cases h with
  | item => simp [at?]
  | replaced hkey => simp [at?, List.lookup_append, lookup_eq_none_of_notMem hkey]
  | added hkey => simp [at?, List.lookup_append, lookup_eq_none_of_notMem hkey]

-- All other places are as they were.
theorem at?_other (h : Sets x step v y) {other : Branch} (hother : other ≠ step) :
    y.at? other = x.at? other := by
  cases h with
  | @item before rest =>
      cases other with
      | entry key => rfl
      | item i =>
          have hi : i ≠ before.length := fun heq => hother (heq ▸ rfl)
          simp only [at?]
          by_cases hbefore : i < before.length
          · rw [List.getElem?_append_left hbefore, List.getElem?_append_left hbefore]
          · have hbehind : i - before.length = (i - before.length - 1) + 1 := by omega
            rw [List.getElem?_append_right (by omega), List.getElem?_append_right (by omega),
              hbehind, List.getElem?_cons_succ, List.getElem?_cons_succ]
  | @replaced before rest key =>
      cases other with
      | item i => rfl
      | entry other =>
          have hne : (other == key) = false := beq_false_of_ne fun heq => hother (heq ▸ rfl)
          simp only [at?, List.lookup_append, List.lookup_cons, hne]
  | @added entries key =>
      cases other with
      | item i => rfl
      | entry other =>
          have hne : (other == key) = false := beq_false_of_ne fun heq => hother (heq ▸ rfl)
          simp only [at?, List.lookup_append, List.lookup_cons, hne, List.lookup_nil,
            Option.or_none]

theorem length {items : List Value} (h : Sets (.list items) step v y) :
    ∃ items', y = .list items' ∧ items'.length = items.length := by
  cases h with
  | item => exact ⟨_, rfl, by rw [List.length_append, List.length_append]; rfl⟩

end Content.Sets

-- What a container of a heap has in it.
def Container.content (heap : Heap) : Container → Content
  | list ref => .list (heap.items ref)
  | map ref => .map (heap.entries ref)

theorem Container.content_eq_getD (heap : Heap) (c : Container) : c.content heap =
    (heap.get? c.cell).getD (match c with | list _ => .list [] | map _ => .map []) := by
  cases c with
  | list ref =>
      simp only [content, Heap.items, cell, Heap.get?, Array.getD_eq_getD_getElem?]
      cases heap.lists[ref]? <;> rfl
  | map ref =>
      simp only [content, Heap.entries, cell, Heap.get?, Array.getD_eq_getD_getElem?]
      cases heap.maps[ref]? <;> rfl

-- A container is read by its own strategy.
def Container.read (heap : Heap) (key : Value) : Container → Except Fault Value
  | list ref => Resolve.readList heap (.list ref) key
  | map ref => Resolve.readMap heap (.map ref) key

namespace Value

-- The place in a value that a key means, if it means one.
def place? (heap : Heap) : Value → Value → Option Branch
  | list ref, int i =>
    if 0 ≤ i.toInt ∧ i.toInt < (heap.items ref).length then some (.item i.toInt.toNat) else none
  | map _, key => some (.entry (key.display heap))
  | _, _ => none

variable {heap heap' : Heap} {target key v : Value} {c : Container} {step : Branch}

theorem display_immutable (hkey : key.isImmutable = true) (heap heap' : Heap) :
    key.display heap' = key.display heap := by
  cases key with
  | null | bool b | int n | float x | str s | bytes bs | range first last =>
      simp only [display, displayWithin]
  | _ => cases hkey

theorem container?_of_place (hplace : place? heap target key = some step) :
    ∃ c, target.container? = some c := by
  cases target with
  | list ref => exact ⟨_, rfl⟩
  | map ref => exact ⟨_, rfl⟩
  | _ => cases hplace

theorem read_of_place (htarget : target.container? = some c)
    (hplace : place? heap target key = some step) (hat : (c.content heap).at? step = some v) :
    c.read heap key = .ok v := by
  cases target with
  | list ref =>
      cases htarget
      cases key with
      | int i =>
          rw [place?] at hplace
          split at hplace
          · rename_i hi
            cases hplace
            have hitem : (heap.items ref)[i.toInt.toNat]? = some v := hat
            simp only [Container.read, Resolve.readList, Resolve.checkedIndex, if_pos hi]
            change Except.ok ((heap.items ref).getD i.toInt.toNat .null) = _
            rw [List.getD_eq_getElem?_getD, hitem]
            rfl
          · cases hplace
      | _ => cases hplace
  | map ref =>
      cases htarget
      cases hplace
      have hentry : (heap.entries ref).lookup (key.display heap) = some v := hat
      simp only [Container.read, Resolve.readMap, Resolve.mapKey, hentry]
      rfl
  | _ => cases htarget

theorem place?_eq (hkey : key.isImmutable = true)
    (hlength : ∀ ref, (heap'.items ref).length = (heap.items ref).length) :
    place? heap' target key = place? heap target key := by
  cases target with
  | list ref =>
      cases key with
      | int i => simp only [place?, hlength ref]
      | _ => rfl
  | map ref => simp only [place?, display_immutable hkey heap heap']
  | _ => rfl

-- A container is read as before if what the key means in it is as before.
theorem read_eq (htarget : target.container? = some c) (hkey : key.isImmutable = true)
    (hlength : ∀ ref, (heap'.items ref).length = (heap.items ref).length)
    (hat : ∀ step, place? heap target key = some step →
      (c.content heap').at? step = (c.content heap).at? step) :
    c.read heap' key = c.read heap key := by
  cases target with
  | list ref =>
      cases htarget
      have hsize := hlength ref
      have hempty : (heap'.items ref).isEmpty = (heap.items ref).isEmpty := by
        rw [Bool.eq_iff_iff, List.isEmpty_iff_length_eq_zero, List.isEmpty_iff_length_eq_zero,
          hsize]
      cases key with
      | int i =>
          simp only [Container.read, Resolve.readList, Resolve.checkedIndex, hsize]
          by_cases hi : 0 ≤ i.toInt ∧ i.toInt < (heap.items ref).length
          · have hitem : (heap'.items ref)[i.toInt.toNat]? = (heap.items ref)[i.toInt.toNat]? :=
              hat _ (if_pos hi)
            rw [if_pos hi]
            change Except.ok ((heap'.items ref).getD i.toInt.toNat .null) =
              Except.ok ((heap.items ref).getD i.toInt.toNat .null)
            rw [List.getD_eq_getElem?_getD, List.getD_eq_getElem?_getD, hitem]
          · rw [if_neg hi]
            rfl
      | str name =>
          simp only [Container.read, Resolve.readList, hsize, hempty, Resolve.noSuchProperty,
            typeName, cls, display_immutable hkey heap heap']
      | null | bool b | float x | bytes bs | range first last =>
          simp only [Container.read, Resolve.readList, Resolve.noSuchProperty, typeName, cls,
            display_immutable hkey heap heap']
      | _ => cases hkey
  | map ref =>
      cases htarget
      have hentry : (heap'.entries ref).lookup (key.display heap) =
        (heap.entries ref).lookup (key.display heap) := hat _ rfl
      simp only [Container.read, Resolve.readMap, Resolve.mapKey, display_immutable hkey heap heap',
        hentry]
  | _ => cases htarget

end Value

-- A statement that assigns to a property has come to the point where everything is evaluated: it is
-- about to set the key of the target to the value.
inductive Run.Assigns (k : Linkage) :
    Stmt → Activation → Value → Value → Value → Position → Activation → Prop
  | property {target value : Expr} {key : String} {pos : Position} {a a₁ a₂ : Activation}
      {t v : Value} (htarget : Run.evalExpr k target a = (.ok t, a₁))
      (hvalue : Run.evalExpr k value a₁ = (.ok v, a₂)) :
      Assigns k (.setProperty target key value pos) a t (.str key) v pos a₂
  | index {target key value : Expr} {pos : Position} {a a₁ a₂ a₃ : Activation} {t u v : Value}
      (htarget : Run.evalExpr k target a = (.ok t, a₁))
      (hkey : Run.evalExpr k key a₁ = (.ok u, a₂))
      (hvalue : Run.evalExpr k value a₂ = (.ok v, a₃)) :
      Assigns k (.setIndex target key value pos) a t u v pos a₃

namespace Run

open Resolve

variable {k : Linkage} {target key v : Value} {c : Container} {pos : Position}
  {a b b' : Activation} {w w' : World}

theorem ofExcept_eq (e : Except ε α) (w : World) :
    (WorldM.ofExcept e : WorldM ε α) w = (e.mapError .raised, w) := by
  cases e <;> rfl

theorem getProperty_settled {getter : Getter} (hnull : target.isNull = false)
    (hfound : w.resolvers.getters.find? (target.cls w.heap) = some getter) :
    getProperty k target key w = readWith k getter target key w := by
  have hchosen : w.resolvers.chooseGetter (target.cls w.heap) = (getter, w.resolvers) := by
    rw [Resolvers.chooseGetter, hfound]
  have hread : getProperty k target key w =
      readWith k (w.resolvers.chooseGetter (target.cls w.heap)).1 target key
        { w with resolvers := (w.resolvers.chooseGetter (target.cls w.heap)).2 } := by
    rw [getProperty, hnull]
    rfl
  rw [hread, hchosen]

theorem getProperty_container (hw : w.resolvers.Builtin) (htarget : target.container? = some c) :
    getProperty k target key w = ((c.read w.heap key).mapError .raised, w) := by
  cases target with
  | list ref =>
      cases htarget
      rw [getProperty_settled rfl hw.listGetter, readWith_list]
      exact ofExcept_eq (readList w.heap (.list ref) key) w
  | map ref =>
      cases htarget
      rw [getProperty_settled rfl hw.mapGetter, readWith_map]
      exact ofExcept_eq (readMap w.heap (.map ref) key) w
  | _ => cases htarget

-- What the target refuses a key for.
def refusal (heap : Heap) (target key : Value) : Fault :=
  match target, key with
  | .list ref, .int i => .indexOutOfBounds i (heap.items ref).length
  | _, _ => .propertyNotWritable (target.typeName heap) (key.display heap)

theorem located_eq {act : WorldM Fault α} {r : Except (Halt Fault) α} (h : act b.world = (r, w)) :
    RunM.located pos act b =
      (r.mapError (Halt.map (Fault.located pos)), { b with world := w }) := by
  simp only [RunM.located, RunM.onWorld, WorldM.mapError, h]
  cases r <;> rfl

theorem assignProperty_stores (h : setProperty target key v b.world = (.ok true, w)) :
    assignProperty target key v pos b = (.ok (), { b with world := w }) := by
  rw [assignProperty, run_bind_ok (located_eq h)]
  rfl

theorem assignProperty_declines (h : setProperty target key v b.world = (.ok false, w)) :
    assignProperty target key v pos b = (.error (.raised ⟨pos,
      .propertyNotWritable (target.typeName w.heap) (key.display w.heap)⟩),
      { b with world := w }) := by
  rw [assignProperty, run_bind_ok (located_eq h)]
  rfl

theorem assignProperty_fails {fault : Fault}
    (h : setProperty target key v b.world = (.error (.raised fault), w)) :
    assignProperty target key v pos b =
      (.error (.raised (fault.located pos)), { b with world := w }) := by
  rw [assignProperty, run_bind_error (located_eq h)]
  rfl

theorem execStmt_assigns {fuel : Nat} {s : Stmt} {r : Except (Halt RuntimeError) Unit}
    (h : Assigns k s a target key v pos b)
    (hassign : assignProperty target key v pos b = (r, b')) :
    execStmt k fuel s a = (r.map fun _ => .normal, b') := by
  cases h with
  | property htarget hvalue =>
      rw [execStmt, run_bind_ok htarget, run_bind_ok hvalue]
      cases r with
      | ok done => exact run_bind_ok hassign
      | error e => exact run_bind_error hassign
  | index htarget hkey hvalue =>
      rw [execStmt, run_bind_ok htarget, run_bind_ok hkey, run_bind_ok hvalue]
      cases r with
      | ok done => exact run_bind_ok hassign
      | error e => exact run_bind_error hassign

theorem setProperty_eq (hnull : target.isNull = false) :
    setProperty target key v w =
      writeWith (w.resolvers.chooseSetter (target.cls w.heap)).1 target key v
        { w with resolvers := (w.resolvers.chooseSetter (target.cls w.heap)).2 } := by
  rw [setProperty, hnull]
  rfl

theorem setProperty_settled {setter : Setter} (hnull : target.isNull = false)
    (hfound : w.resolvers.setters.find? (target.cls w.heap) = some setter) :
    setProperty target key v w = writeWith setter target key v w := by
  have hchosen : w.resolvers.chooseSetter (target.cls w.heap) = (setter, w.resolvers) := by
    rw [Resolvers.chooseSetter, hfound]
  rw [setProperty_eq hnull, hchosen]

theorem setProperty_list (hw : w.resolvers.Builtin) {ref : Nat} :
    setProperty (.list ref) key v w =
      (WorldM.ofExcept (writeList w.heap (.list ref) key v) >>= store) w :=
  (setProperty_settled rfl hw.listSetter).trans writeWith_list

-- Where the key means a place, that place is set.
theorem setProperty_stores {step : Branch} (hw : w.resolvers.Builtin)
    (htarget : target.container? = some c) (hallocated : w.heap.Allocated c.cell)
    (hfree : ¬ Waits w.heap target key) (hplace : Value.place? w.heap target key = some step) :
    ∃ y heap', (c.content w.heap).Sets step v y ∧ w.heap.Put c.cell y heap' ∧
      setProperty target key v w = (.ok true, w.setHeap heap') := by
  cases target with
  | list ref =>
      cases htarget
      cases key with
      | int i =>
          rw [Value.place?] at hplace
          split at hplace
          · rename_i hi
            cases hplace
            refine ⟨_, _, .set (by omega) v, Heap.put_setItems hallocated _, ?_⟩
            have hwrite : writeList w.heap (.list ref) (.int i) v =
                .ok (some (w.heap.setItems ref ((w.heap.items ref).set i.toInt.toNat v))) := by
              rw [writeList, checkedIndex, if_pos hi]
              rfl
            rw [setProperty_list hw, hwrite]
            rfl
          · cases hplace
      | _ => cases hplace
  | map ref =>
      cases htarget
      cases hplace
      refine ⟨_, _, .putEntry (key.display w.heap) v _, Heap.put_setEntries hallocated _, ?_⟩
      rw [setProperty_settled rfl hw.mapSetter, writeWith_map hfree]
      rfl
  | _ => cases htarget

-- Built-in strategies store nothing in what has no places.
theorem writeWith_leaf {setter : Setter} (hsetter : setter.IsBuiltin)
    (htarget : target.container? = none) (hhost : ∀ ref, target ≠ .host ref) :
    writeWith setter target key v w = (.ok false, w) := by
  cases target with
  | list ref | map ref => cases htarget
  | host ref => exact absurd rfl (hhost ref)
  | _ =>
      cases setter with
      | custom run => exact hsetter.elim
      | _ => rfl

-- Where the key means no place, nothing is stored, and the statement says why.
theorem assignProperty_refuses (hw : b.world.resolvers.Builtin) (hhost : ∀ ref, target ≠ .host ref)
    (hplace : Value.place? b.world.heap target key = none) :
    ∃ resolvers, assignProperty target key v pos b =
      (.error (.raised ⟨pos, refusal b.world.heap target key⟩),
        { b with world := { b.world with resolvers } }) := by
  cases htarget : target.container? with
  | none =>
      cases hnull : target.isNull with
      | true =>
          cases target with
          | null => exact ⟨_, assignProperty_declines rfl⟩
          | _ => cases hnull
      | false =>
          have hwrite : setProperty target key v b.world = (.ok false, { b.world with
              resolvers := (b.world.resolvers.chooseSetter (target.cls b.world.heap)).2 }) :=
            (setProperty_eq hnull).trans (writeWith_leaf (hw.chooseSetter _).1 htarget hhost)
          have hrefusal : refusal b.world.heap target key =
              .propertyNotWritable (target.typeName b.world.heap) (key.display b.world.heap) := by
            cases target with
            | list ref => cases htarget
            | _ => rfl
          rw [hrefusal]
          exact ⟨(b.world.resolvers.chooseSetter _).2, assignProperty_declines hwrite⟩
  | some c =>
      cases target with
      | list ref =>
          cases key with
          | int i =>
              have hout : ¬ (0 ≤ i.toInt ∧ i.toInt < (b.world.heap.items ref).length) := by
                intro hi
                rw [Value.place?, if_pos hi] at hplace
                cases hplace
              have hwrite : writeList b.world.heap (.list ref) (.int i) v =
                  .error (.indexOutOfBounds i (b.world.heap.items ref).length) := by
                rw [writeList, checkedIndex, if_neg hout]
                rfl
              have hset : setProperty (.list ref) (.int i) v b.world =
                  (.error (.raised (.indexOutOfBounds i (b.world.heap.items ref).length)),
                    b.world) := by
                rw [setProperty_list hw, hwrite]
                rfl
              exact ⟨_, assignProperty_fails hset⟩
          | _ => exact ⟨_, assignProperty_declines (setProperty_list hw)⟩
      | map ref => cases hplace
      | _ => cases htarget

-- One place of a container is set. That place reads as the value, and all others of all containers
-- read as before.
structure SetsPlace (k : Linkage) (w w' : World) (target key v : Value) (c : Container)
    (step : Branch) : Prop where
  changed : ∃ y, (c.content w.heap).Sets step v y ∧ w.heap.Put c.cell y w'.heap
  found : (getProperty k target key w').1 = .ok v
  kept : ∀ other key', other.container?.isSome → key'.isImmutable = true →
    (other = target → Value.place? w.heap other key' ≠ some step) →
    (getProperty k other key' w').1 = (getProperty k other key' w).1

theorem setsPlace {step : Branch} {y : Content} {heap' : Heap} (hw : w.resolvers.Builtin)
    (htarget : target.container? = some c) (hkey : key.isImmutable = true)
    (hplace : Value.place? w.heap target key = some step)
    (hsets : (c.content w.heap).Sets step v y) (hput : w.heap.Put c.cell y heap') :
    SetsPlace k w (w.setHeap heap') target key v c step := by
  have hhere : c.content heap' = y := by
    rw [c.content_eq_getD, hput.here]
    rfl
  have hthere : ∀ d, d ≠ c → d.content heap' = d.content w.heap := by
    intro d hd
    rw [d.content_eq_getD, d.content_eq_getD, hput.there d.cell (mt Container.cell_injective hd)]
  have hlength : ∀ ref, (heap'.items ref).length = (w.heap.items ref).length := by
    intro ref
    by_cases hc : Container.list ref = c
    · subst hc
      obtain ⟨items', rfl, hitems⟩ := hsets.length
      cases hhere
      exact hitems
    · have hsame := hthere _ hc
      simp only [Container.content, Content.list.injEq] at hsame
      rw [hsame]
  refine ⟨⟨y, hsets, hput⟩, ?_, ?_⟩
  · have hplace' : Value.place? heap' target key = some step :=
      (Value.place?_eq hkey hlength).trans hplace
    have hread : c.read heap' key = .ok v :=
      Value.read_of_place htarget hplace' (hhere ▸ hsets.at?_self)
    rw [getProperty_container (w := w.setHeap heap') hw htarget]
    exact congrArg (Except.mapError Halt.raised) hread
  · intro other key' hother hkey' hne
    obtain ⟨d, hd⟩ := Option.isSome_iff_exists.mp hother
    have hread : d.read heap' key' = d.read w.heap key' := by
      refine Value.read_eq hd hkey' hlength fun step' hstep' => ?_
      by_cases hdc : d = c
      · subst hdc
        rw [hhere]
        have hsame := Value.eq_of_container? hd htarget
        exact hsets.at?_other fun heq => hne hsame (heq ▸ hstep')
      · rw [hthere d hdc]
    rw [getProperty_container (w := w.setHeap heap') hw hd, getProperty_container hw hd]
    exact congrArg (Except.mapError Halt.raised) hread

-- A statement that assigns to a property, with the built-in strategies alone, sets the one place
-- that the key means in the target, and fails without a change where it means none.
theorem assignment_sets_one_place {fuel : Nat} {s : Stmt} {generate : Bool} {history : List Lookup}
    (h : Assigns k s a target key v pos b)
    (hresolvers : b.world.resolvers = (Resolvers.withDefaults [] generate).after history)
    (hhost : ∀ ref, target ≠ .host ref)
    (hallocated : ∀ c, target.container? = some c → b.world.heap.Allocated c.cell)
    (hkey : key.isImmutable = true) :
    (∀ step, Value.place? b.world.heap target key = some step →
      ∃ c heap', target.container? = some c ∧
        execStmt k fuel s a = (.ok .normal, { b with world := b.world.setHeap heap' }) ∧
        SetsPlace k b.world (b.world.setHeap heap') target key v c step) ∧
    (Value.place? b.world.heap target key = none →
      ∃ resolvers, execStmt k fuel s a =
        (.error (.raised ⟨pos, refusal b.world.heap target key⟩),
          { b with world := { b.world with resolvers } })) := by
  have hw : b.world.resolvers.Builtin :=
    hresolvers ▸ (Resolvers.builtin_withDefaults generate).after history
  constructor
  · intro step hplace
    obtain ⟨c, htarget⟩ := Value.container?_of_place hplace
    obtain ⟨y, heap', hsets, hput, hset⟩ :=
      setProperty_stores (v := v) hw htarget (hallocated c htarget)
        (not_waits_of_immutable hkey) hplace
    exact ⟨c, heap', htarget, execStmt_assigns h (assignProperty_stores hset),
      setsPlace hw htarget hkey hplace hsets hput⟩
  · intro hplace
    obtain ⟨resolvers, hrefused⟩ := assignProperty_refuses hw hhost hplace
    exact ⟨resolvers, execStmt_assigns h hrefused⟩

-- A list of two and a map, both with the map in them, in the first two variables.
def knotted : Activation where
  frame := ⟨#[.list 0, .map 0], 0, 0⟩
  world :=
    { store := ⟨⟨#[[.int 5, .map 0]], #[[("2", .str "old"), ("self", .map 0)]], #[], #[]⟩, []⟩
      resolvers := Resolvers.withDefaults [] true
      sink := .newText }

-- Sets 2 of the variable to the map.
def tie (slot : Nat) (pos : Position) : Stmt :=
  .setIndex (.var slot pos) (.direct (.int 2) pos) (.var 1 pos) pos

theorem assignment_sets_one_place_knotted :
    (∃ c heap', (Value.map 0).container? = some c ∧
      execStmt (linkage #[] 0) 0 (tie 1 ⟨1, 4⟩) knotted =
        (.ok .normal, { knotted with world := knotted.world.setHeap heap' }) ∧
      SetsPlace (linkage #[] 0) knotted.world (knotted.world.setHeap heap') (.map 0) (.int 2)
        (.map 0) c (.entry "2")) ∧
    ∃ resolvers, execStmt (linkage #[] 0) 0 (tie 0 ⟨1, 4⟩) knotted =
      (.error (.raised ⟨⟨1, 4⟩, .indexOutOfBounds 2 2⟩),
        { knotted with world := { knotted.world with resolvers } }) := by
  have hassigns : ∀ slot, Assigns (linkage #[] 0) (tie slot ⟨1, 4⟩) knotted
      (knotted.frame.get slot) (.int 2) (.map 0) ⟨1, 4⟩ knotted :=
    fun slot => .index rfl rfl rfl
  have hresolvers : knotted.world.resolvers = (Resolvers.withDefaults [] true).after [] := rfl
  have htext : (Value.int 2).display knotted.world.heap = "2" := by decide +kernel
  have hplace : Value.place? knotted.world.heap (.map 0) (.int 2) = some (.entry "2") := by
    rw [Value.place?, htext]
  have hnone : Value.place? knotted.world.heap (.list 0) (.int 2) = none := by decide +kernel
  constructor
  · exact (assignment_sets_one_place (hassigns 1) hresolvers nofun
      (fun _ hc => Option.some.inj hc ▸ Nat.zero_lt_one) rfl).1 _ hplace
  · exact (assignment_sets_one_place (hassigns 0) hresolvers nofun
      (fun _ hc => Option.some.inj hc ▸ Nat.zero_lt_one) rfl).2 hnone

end Run

end Stencil
