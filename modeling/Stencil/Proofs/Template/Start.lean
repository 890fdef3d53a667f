import Mathlib.Data.List.Nodup
import Stencil.Run.Render

namespace Stencil.Template

-- The value of the parameter that has the slot.
def paramValue? (t : Template) (params : Params) (slot : Nat) : Option Value :=
  (t.params.find? fun b => b.2 = slot).map fun b => (params.get? b.1).getD .null

-- The slots of a template as something else may have left them: the parameters have their values,
-- other slots hold anything.
def slotsAmong (t : Template) (params : Params) (stale : Nat → Value) : Array Value :=
  Array.ofFn fun i : Fin t.frameSize => (t.paramValue? params i).getD (stale i)

def bindParam (params : Params) (slots : Array Value) (b : String × Nat) : Array Value :=
  match params.get? b.1 with
  | some v => slots.setIfInBounds b.2 v
  | none => slots

section

variable {params : Params} {bs : List (String × Nat)} {slots : Array Value} {slot : Nat}

theorem size_bindParam (b : String × Nat) : (bindParam params slots b).size = slots.size := by
  rw [bindParam]
  split
  · exact Array.size_setIfInBounds
  · rfl

theorem size_foldl_bindParam : (bs.foldl (bindParam params) slots).size = slots.size := by
  induction bs generalizing slots with
  | nil => rfl
  | cons b rest ih => rw [List.foldl_cons, ih, size_bindParam]

theorem getD_bindParam_ne {b : String × Nat} (h : b.2 ≠ slot) :
    (bindParam params slots b).getD slot .null = slots.getD slot .null := by
  rw [bindParam]
  split
  · simp [h]
  · rfl

theorem getD_foldl_bindParam_of_notMem (h : slot ∉ bs.map Prod.snd) :
    (bs.foldl (bindParam params) slots).getD slot .null = slots.getD slot .null := by
  induction bs generalizing slots with
  | nil => rfl
  | cons b rest ih =>
      rw [List.map_cons, List.mem_cons, not_or] at h
      rw [List.foldl_cons, ih h.2, getD_bindParam_ne (Ne.symm h.1)]

theorem getD_foldl_bindParam (hnodup : (bs.map Prod.snd).Nodup) (hslot : slot < slots.size)
    (hnull : slots.getD slot .null = .null) :
    (bs.foldl (bindParam params) slots).getD slot .null =
      ((bs.find? fun b => b.2 = slot).map fun b => (params.get? b.1).getD .null).getD .null := by
  induction bs generalizing slots with
  | nil => exact hnull
  | cons b rest ih =>
      rw [List.map_cons, List.nodup_cons] at hnodup
      rw [List.foldl_cons, List.find?_cons]
      by_cases hb : b.2 = slot
      · subst hb
        rw [getD_foldl_bindParam_of_notMem hnodup.1, bindParam]
        cases hvalue : params.get? b.1 with
        | some v => simp [hslot, hvalue]
        | none => simpa [hvalue] using hnull
      · rw [decide_eq_false hb]
        refine ih hnodup.2 ?_ ?_
        · rwa [size_bindParam]
        · rwa [getD_bindParam_ne hb]

end

-- A render starts from slots that are `null` unless they belong to parameters.
theorem initialSlots_eq {t : Template} (hnodup : (t.params.map Prod.snd).Nodup) (params : Params) :
    t.initialSlots params = t.slotsAmong params fun _ => .null := by
  have hinitial : t.initialSlots params =
      t.params.foldl (bindParam params) (Array.replicate t.frameSize .null) := rfl
  apply Array.ext
  · rw [hinitial, size_foldl_bindParam, Array.size_replicate, slotsAmong, Array.size_ofFn]
  · intro i hi hi'
    have hsize : i < t.frameSize := by rwa [slotsAmong, Array.size_ofFn] at hi'
    have hget : (t.params.foldl (bindParam params) (Array.replicate t.frameSize .null)).getD i
        .null = _ :=
      getD_foldl_bindParam hnodup (by rwa [Array.size_replicate]) (by simp [hsize])
    rw [← hinitial, Array.getD_eq_getD_getElem?, Array.getElem?_eq_getElem hi] at hget
    simpa [slotsAmong, paramValue?] using hget

end Stencil.Template
