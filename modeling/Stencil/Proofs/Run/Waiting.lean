import Stencil.Proofs.Value.Lock
import Stencil.Run.Property

namespace Stencil

namespace Resolve

variable {heap : Heap} {target key value : Value}

-- The text of the key is made while the map is locked for writing, and is read from that map.
def Waits (heap : Heap) (target key : Value) : Prop :=
  ∃ ref, target = .map ref ∧ key.Opens heap (.map ref)

theorem display_of_reading (c : Container) (key : Value) :
    key.displayLocking heap [(c, .read)] = some (key.display heap) :=
  Value.displayLocking_of_opens fun _ _ hwrite => by simp at hwrite

theorem display_of_free (key : Value) : key.displayLocking heap [] = some (key.display heap) :=
  Value.displayLocking_of_opens fun _ _ => List.not_mem_nil

theorem not_waits_of_immutable (hkey : key.isImmutable = true) : ¬ Waits heap target key := by
  have hcontainer : key.container? = none := by
    cases key <;> first | rfl | cases hkey
  rintro ⟨ref, -, n, hopens⟩
  cases hopens with
  | shown ho hpiece h => cases hkey
  | here hv | inside hv _ _ => exact nomatch hcontainer.symm.trans hv

-- The fault that tells of a key has its text, if there is one.
def Tells (heap : Heap) (key : Value) (found : Except Fault Value) : Prop :=
  ∀ typeName text, found = .error (.noSuchProperty typeName text) → text = key.display heap

theorem Tells.reported {found : Except Fault Value} (h : Tells heap key found) {held : HeldLocks}
    (htext : key.displayLocking heap held = some (key.display heap)) :
    reported heap key found held = some found := by
  unfold Resolve.reported
  split
  · rename_i typeName text
    rw [h typeName text rfl]
    exact congrArg (Option.bind · _) htext
  · rfl

theorem tells_noSuchProperty (target key : Value) :
    Tells heap key (.error (noSuchProperty heap target key)) := by
  rintro _ _ ⟨⟩
  rfl

theorem tells_readList (target key : Value) : Tells heap key (readList heap target key) := by
  unfold readList
  split
  · rename_i ref index
    intro typeName text h
    unfold checkedIndex at h
    split at h <;> cases h
  · split_ifs
    · exact nofun
    · exact nofun
    · exact tells_noSuchProperty _ _
  · exact tells_noSuchProperty _ _

theorem getList_free (heap : Heap) (target key : Value) :
    getList heap target key [] = some (readList heap target key) := by
  have htells : Tells heap key (readList heap target key) := tells_readList target key
  unfold getList
  split
  · rw [holding_first]
    exact htells.reported (display_of_reading _ key)
  · exact htells.reported (display_of_free key)

theorem getMap_free (heap : Heap) (target key : Value) :
    getMap heap target key [] = some (readMap heap target key) := by
  unfold getMap
  split
  · rw [holding_first]
    exact congrArg (Option.bind · _) (display_of_reading _ key)
  · rename_i hmap
    have htells : Tells heap key (readMap heap target key) := by
      unfold readMap
      split
      · exact absurd rfl (hmap _)
      · exact tells_noSuchProperty _ _
    exact htells.reported (display_of_free key)

theorem setList_free (heap : Heap) (target key value : Value) :
    setList heap target key value [] = some (writeList heap target key value) := by
  unfold setList
  split
  · rw [holding_first]
    rfl
  · rfl

theorem setMap_of_waits (h : Waits heap target key) : setMap heap target key value [] = none := by
  obtain ⟨ref, rfl, hopens⟩ := h
  rw [setMap, holding_first]
  exact congrArg (Option.bind · _) (Value.displayLocking_eq_none.mpr
    ⟨_, hopens, List.mem_singleton.mpr rfl⟩)

theorem setMap_free (h : ¬ Waits heap target key) :
    setMap heap target key value [] = some (writeMap heap target key value) := by
  cases target with
  | map ref =>
      have htext : key.displayLocking heap [(.map ref, .write)] = some (key.display heap) := by
        refine Value.displayLocking_of_opens fun c hopens hwrite => ?_
        cases List.mem_singleton.mp hwrite
        exact h ⟨ref, rfl, hopens⟩
      rw [setMap, holding_first]
      exact congrArg (Option.bind · _) htext
  | _ => rfl

-- Reads of lists and maps are granted every lock they ask for, and so are writes, but for one
-- case: a map is locked for writing while the text of the key is made, which waits for that lock
-- where the map is opened in the text.
theorem accesses_granted (heap : Heap) (target key value : Value) :
    (∀ (v : Value) held, v.displayLocking heap held = none ↔
      ∃ c, v.Opens heap c ∧ (c, Access.write) ∈ held) ∧
    getList heap target key [] = some (readList heap target key) ∧
    getMap heap target key [] = some (readMap heap target key) ∧
    setList heap target key value [] = some (writeList heap target key value) ∧
    (Waits heap target key ∧ setMap heap target key value [] = none ∨
      ¬ Waits heap target key ∧
        setMap heap target key value [] = some (writeMap heap target key value)) := by
  refine ⟨fun v held => Value.displayLocking_eq_none, getList_free heap target key,
    getMap_free heap target key, setList_free heap target key value, ?_⟩
  by_cases hwaits : Waits heap target key
  · exact .inl ⟨hwaits, setMap_of_waits hwaits⟩
  · exact .inr ⟨hwaits, setMap_free hwaits⟩

-- An empty map that is its own key.
theorem own_key_waits :
    setMap ⟨#[], #[[]], #[], #[]⟩ (.map 0) (.map 0) (.int 1) [] = none := rfl

end Resolve

namespace WorldM

open Resolve

variable {heap : Heap} {target key value : Value}

theorem locking_of_some {act : Locking α} {a : α} (h : act [] = some a) :
    (locking act : WorldM ε α) = pure a := by
  rw [locking, h]

theorem locking_of_none {act : Locking α} (h : act [] = none) :
    (locking act : WorldM ε α) = exhausted := by
  rw [locking, h]

@[simp] theorem locking_getList (heap : Heap) (target key : Value) :
    (locking (getList heap target key) : WorldM ε _) = pure (readList heap target key) :=
  locking_of_some (getList_free heap target key)

@[simp] theorem locking_getMap (heap : Heap) (target key : Value) :
    (locking (getMap heap target key) : WorldM ε _) = pure (readMap heap target key) :=
  locking_of_some (getMap_free heap target key)

@[simp] theorem locking_setList (heap : Heap) (target key value : Value) :
    (locking (setList heap target key value) : WorldM ε _) =
      pure (writeList heap target key value) :=
  locking_of_some (setList_free heap target key value)

-- Nothing comes after a step that waits for ever.
theorem locking_setMap_of_waits (h : Waits heap target key) (rest : Option Heap → WorldM ε α) :
    locking (setMap heap target key value) >>= rest = exhausted := by
  rw [locking_of_none (setMap_of_waits h)]
  rfl

theorem locking_setMap (h : ¬ Waits heap target key) :
    (locking (setMap heap target key value) : WorldM ε _) =
      pure (writeMap heap target key value) :=
  locking_of_some (setMap_free h)

end WorldM

namespace Run

open Resolve WorldM

variable {k : Linkage} {target key value : Value} {w : World}

theorem readWith_list : readWith k .list target key w =
    WorldM.ofExcept (readList w.heap target key) w := by
  change (locking (getList w.heap target key) >>= WorldM.ofExcept) w = _
  rw [locking_getList, pure_bind]

theorem readWith_map : readWith k .map target key w =
    WorldM.ofExcept (readMap w.heap target key) w := by
  change (locking (getMap w.heap target key) >>= WorldM.ofExcept) w = _
  rw [locking_getMap, pure_bind]

theorem writeWith_list : writeWith .list target key value w =
    (WorldM.ofExcept (writeList w.heap target key value) >>= store) w := by
  change (locking (setList w.heap target key value) >>= fun written =>
    WorldM.ofExcept written >>= store) w = _
  rw [locking_setList, pure_bind]

theorem writeWith_map (h : ¬ Waits w.heap target key) : writeWith .map target key value w =
    store (writeMap w.heap target key value) w := by
  change (locking (setMap w.heap target key value) >>= store) w = _
  rw [locking_setMap h, pure_bind]

end Run

end Stencil
