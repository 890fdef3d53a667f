import Stencil.Proofs.Alike.Shown
import Stencil.Proofs.Value.Unfolding

namespace Stencil

namespace Value

-- Two containers of one kind.
def pairing? : Value → Value → Option (Container × Container)
  | .list r, .list s => some (.list r, .list s)
  | .map r, .map s => some (.map r, .map s)
  | _, _ => none

def size (heap : Heap) : Value → Nat
  | .list ref => (heap.items ref).length
  | .map ref => (heap.entries ref).length
  | _ => 0

-- What is compared with what inside two containers. A key may have no counterpart.
def parts (heap : Heap) : Value → Value → List (Value × Option Value)
  | .list r, .list s => ((heap.items r).zip (heap.items s)).map fun (x, y) => (x, some y)
  | .map r, .map s => (heap.entries r).map fun (key, x) => (x, (heap.entries s).lookup key)
  | _, _ => []

-- A comparison that comes to an end, with no fuel to stop it. The pairs of containers that are
-- open around it are kept. Leaves are compared at once, and two containers that are opened have
-- a verdict on each of their parts.
inductive Compared (heap : Heap) : List (Container × Container) → Value → Value → Bool → Prop
  | leaf {enclosing a b} (h : pairing? a b = none) :
      Compared heap enclosing a b (eqWithin heap 0 [] a b)
  | met {enclosing a b c} (h : pairing? a b = some c) (hmet : c.1 = c.2 ∨ c ∈ enclosing) :
      Compared heap enclosing a b true
  | opened {enclosing a b c} (h : pairing? a b = some c) (hnew : ¬ (c.1 = c.2 ∨ c ∈ enclosing))
      (verdict : Value → Value → Bool)
      (hparts : size heap a = size heap b → ∀ x y, (x, some y) ∈ parts heap a b →
        Compared heap (c :: enclosing) x y (verdict x y)) :
      Compared heap enclosing a b (decide (size heap a = size heap b) &&
        (parts heap a b).all fun p => p.2.any (verdict p.1))

variable {heap heap' : Heap} {enclosing : List (Container × Container)} {a b x y : Value}
  {o : Option Value} {c : Container × Container} {r : Bool} {fuel n : Nat}

theorem eqWithin_leaf (h : pairing? a b = none) :
    eqWithin heap fuel enclosing a b = eqWithin heap 0 [] a b := by
  cases fuel <;> cases a <;> cases b <;> first | rfl | cases h

theorem eqWithin_met (h : pairing? a b = some c) (hmet : c.1 = c.2 ∨ c ∈ enclosing) :
    eqWithin heap fuel enclosing a b = true := by
  cases a with
  | list r =>
      cases b with
      | list s =>
          cases h
          have hopen : r = s ∨ (Container.list r, Container.list s) ∈ enclosing := by
            simpa using hmet
          cases fuel <;> simp [eqWithin, hopen]
      | _ => cases h
  | map r =>
      cases b with
      | map s =>
          cases h
          have hopen : r = s ∨ (Container.map r, Container.map s) ∈ enclosing := by
            simpa using hmet
          cases fuel <;> simp [eqWithin, hopen]
      | _ => cases h
  | _ => cases h

theorem eqWithin_opened (h : pairing? a b = some c) (hnew : ¬ (c.1 = c.2 ∨ c ∈ enclosing)) :
    eqWithin heap (fuel + 1) enclosing a b = (decide (size heap a = size heap b) &&
      (parts heap a b).all fun p => p.2.any (eqWithin heap fuel (c :: enclosing) p.1)) := by
  cases a with
  | list r =>
      cases b with
      | list s =>
          cases h
          have hopen : ¬ (r = s ∨ (Container.list r, Container.list s) ∈ enclosing) := by
            simpa using hnew
          simp only [eqWithin, size, parts, List.all_map, Function.comp_def, Option.any_some]
          simp only [Bool.or_eq_true, decide_eq_true_eq, List.contains_iff_mem, hopen, if_false]
          congr 1
      | _ => cases h
  | map r =>
      cases b with
      | map s =>
          cases h
          have hopen : ¬ (r = s ∨ (Container.map r, Container.map s) ∈ enclosing) := by
            simpa using hnew
          simp only [eqWithin, size, parts, List.all_map, Function.comp_def]
          simp only [Bool.or_eq_true, decide_eq_true_eq, List.contains_iff_mem, hopen, if_false]
          congr 2
          funext e
          cases (heap.entries s).lookup e.1 <;> rfl
      | _ => cases h
  | _ => cases h

theorem exists_branch_of_mem_parts (hkeys : heap.KeysDistinct) (h : (x, o) ∈ parts heap a b) :
    ∃ step, a.branch? heap step = some x ∧ b.branch? heap step = o := by
  cases a with
  | list r =>
      cases b with
      | list s =>
          obtain ⟨⟨u, v⟩, hmem, heq⟩ := List.mem_map.mp h
          cases heq
          obtain ⟨i, hi⟩ := List.mem_iff_getElem?.mp hmem
          rw [List.getElem?_zip_eq_some] at hi
          exact ⟨.item i, hi⟩
      | _ => cases h
  | map r =>
      cases b with
      | map s =>
          obtain ⟨⟨key, u⟩, hmem, heq⟩ := List.mem_map.mp h
          cases heq
          exact ⟨.entry key, (lookup_eq_some_iff_mem (hkeys r)).mpr hmem, rfl⟩
      | _ => cases h
  | _ => cases h

theorem mem_parts_of_branch (hkeys : heap.KeysDistinct) {step : Branch}
    (hx : a.branch? heap step = some x) (hy : b.branch? heap step = some y) :
    (x, some y) ∈ parts heap a b := by
  cases a with
  | list r =>
      cases b with
      | list s =>
          cases step with
          | item i =>
              have hmem : (x, y) ∈ (heap.items r).zip (heap.items s) :=
                List.mem_of_getElem? (List.getElem?_zip_eq_some.mpr ⟨hx, hy⟩)
              exact List.mem_map.mpr ⟨(x, y), hmem, rfl⟩
          | entry key => cases hx
      | _ => cases step <;> first | cases hx | cases hy
  | map r =>
      cases b with
      | map s =>
          cases step with
          | item i => cases hx
          | entry key =>
              have hmem : (key, x) ∈ heap.entries r := (lookup_eq_some_iff_mem (hkeys r)).mp hx
              exact List.mem_map.mpr ⟨(key, x), hmem, Prod.ext rfl hy⟩
      | _ => cases step <;> first | cases hx | cases hy
  | _ => cases hx

-- Cells that are not there hold nothing.
theorem allocated_of_mem_items {ref : Nat} (h : x ∈ heap.items ref) :
    heap.Allocated (.list ref) := by
  by_contra hout
  have hnone : heap.lists[ref]? = none := Array.getElem?_eq_none (Nat.le_of_not_lt hout)
  simp [Heap.items, Array.getD_eq_getD_getElem?, hnone] at h

theorem allocated_of_mem_entries {ref : Nat} {e : String × Value} (h : e ∈ heap.entries ref) :
    heap.Allocated (.map ref) := by
  by_contra hout
  have hnone : heap.maps[ref]? = none := Array.getElem?_eq_none (Nat.le_of_not_lt hout)
  simp [Heap.entries, Array.getD_eq_getD_getElem?, hnone] at h

theorem comparable_of_mem_parts (h : pairing? a b = some c) (hmem : (x, some y) ∈ parts heap a b) :
    heap.Comparable c := by
  cases a with
  | list r =>
      cases b with
      | list s =>
          cases h
          obtain ⟨⟨u, v⟩, hzip, -⟩ := List.mem_map.mp hmem
          obtain ⟨hu, hv⟩ := List.of_mem_zip hzip
          exact .lists (allocated_of_mem_items hu) (allocated_of_mem_items hv)
      | _ => cases h
  | map r =>
      cases b with
      | map s =>
          cases h
          obtain ⟨⟨key, u⟩, hu, heq⟩ := List.mem_map.mp hmem
          obtain ⟨rfl, hy⟩ := Prod.mk.injEq .. ▸ heq
          have hkey := List.lookup_isSome_iff.mp (Option.isSome_of_eq_some hy)
          obtain ⟨e, he, -⟩ := hkey
          exact .maps (allocated_of_mem_entries hu) (allocated_of_mem_entries he)
      | _ => cases h
  | _ => cases h

-- The fuel that is left is never used up.
theorem compared_eqWithin (hw : heap.ComparesWithin fuel enclosing) :
    Compared heap enclosing a b (eqWithin heap fuel enclosing a b) := by
  induction fuel generalizing enclosing a b with
  | zero => exact absurd hw.room (Nat.not_lt_zero _)
  | succ fuel ih =>
      cases hpair : pairing? a b with
      | none =>
          rw [eqWithin_leaf hpair]
          exact .leaf hpair
      | some c =>
          by_cases hmet : c.1 = c.2 ∨ c ∈ enclosing
          · rw [eqWithin_met hpair hmet]
            exact .met hpair hmet
          · rw [eqWithin_opened hpair hmet]
            apply Compared.opened hpair hmet
            intro _ x y hmem
            have hclosed : enclosing.contains c = false := by
              rw [← Bool.not_eq_true, List.contains_iff_mem]
              exact fun hin => hmet (.inr hin)
            exact ih (hw.pair hclosed (comparable_of_mem_parts hpair hmem))

theorem compared_eq (heap : Heap) (a b : Value) : Compared heap [] a b (a.eq heap b) :=
  compared_eqWithin (.start heap)

theorem pairing?_eq_some_of_branch (h : SameNode heap a b) {step : Branch}
    (hx : a.branch? heap step = some x) : ∃ c, pairing? a b = some c := by
  cases h with
  | list => exact ⟨_, rfl⟩
  | map => exact ⟨_, rfl⟩
  | _ => cases hx

theorem sameNode_of_leaf (ha : NoFloats heap a) (hb : NoFloats heap b)
    (hpair : pairing? a b = none) (h : eqWithin heap 0 [] a b = true) : SameNode heap a b := by
  cases a with
  | null =>
      cases b with
      | null => exact .null
      | float d => exact absurd rfl (hb.ne_float d)
      | _ => cases h
  | bool p =>
      cases b with
      | bool q =>
          cases of_decide_eq_true h
          exact .bool p
      | float d => exact absurd rfl (hb.ne_float d)
      | _ => cases h
  | int m =>
      cases b with
      | int n =>
          cases of_decide_eq_true h
          exact .int m
      | float d => exact absurd rfl (hb.ne_float d)
      | _ => cases h
  | str s =>
      cases b with
      | str t =>
          cases of_decide_eq_true h
          exact .str s
      | float d => exact absurd rfl (hb.ne_float d)
      | _ => cases h
  | bytes bs =>
      cases b with
      | bytes cs =>
          cases of_decide_eq_true h
          exact .bytes bs
      | float d => exact absurd rfl (hb.ne_float d)
      | _ => cases h
  | iter r =>
      cases b with
      | iter s =>
          cases of_decide_eq_true h
          exact .iter r
      | float d => exact absurd rfl (hb.ne_float d)
      | _ => cases h
  | host r =>
      cases b with
      | host s =>
          cases of_decide_eq_true h
          exact .host r
      | float d => exact absurd rfl (hb.ne_float d)
      | _ => cases h
  | float d => exact absurd rfl (ha.ne_float d)
  | list r =>
      cases b with
      | list s => cases hpair
      | _ => cases h
  | map r =>
      cases b with
      | map s => cases hpair
      | _ => cases h
  | range first last =>
      cases b with
      | range first' last' =>
          obtain ⟨hfirst, hlast⟩ := Bool.and_eq_true_iff.mp h
          cases of_decide_eq_true hfirst
          cases of_decide_eq_true hlast
          exact .range first last
      | float d => exact absurd rfl (hb.ne_float d)
      | _ => cases h
  | function origin f =>
      cases b with
      | function origin' g =>
          obtain ⟨horigin, hpos⟩ := Bool.and_eq_true_iff.mp h
          cases of_decide_eq_true horigin
          exact .function origin (of_decide_eq_true hpos)
      | float d => exact absurd rfl (hb.ne_float d)
      | _ => cases h
  | native ref name =>
      cases b with
      | native ref' name' =>
          cases of_decide_eq_true h
          exact .native ref name name'
      | float d => exact absurd rfl (hb.ne_float d)
      | _ => cases h

theorem leaf_of_sameNode (hpair : pairing? a b = none) (h : SameNode heap a b) :
    eqWithin heap 0 [] a b = true := by
  cases h with
  | list => cases hpair
  | map => cases hpair
  | function origin h => simp [eqWithin, h]
  | _ => simp [eqWithin]

-- As many keys as the other has, each of them found there, leave none over.
theorem sameNode_of_parts (hkeys : heap.KeysDistinct) (h : pairing? a b = some c)
    (hsize : size heap a = size heap b) (hfound : ∀ x, (x, none) ∉ parts heap a b) :
    SameNode heap a b := by
  cases a with
  | list r =>
      cases b with
      | list s => exact .list hsize
      | _ => cases h
  | map r =>
      cases b with
      | map s =>
          have hsubset : heap.keys r ⊆ heap.keys s := by
            intro key hkey
            obtain ⟨v, hv⟩ := Heap.mem_keys_iff.mp hkey
            have hmem := (lookup_eq_some_iff_mem (hkeys r)).mp hv
            rw [Heap.mem_keys_iff, ← Option.ne_none_iff_exists']
            intro hnone
            apply hfound v
            exact List.mem_map.mpr ⟨(key, v), hmem, Prod.ext rfl hnone⟩
          have hlength : (heap.keys s).length ≤ (heap.keys r).length := by
            simp only [Heap.keys, List.length_map]
            exact hsize.ge
          have hperm := (List.subperm_of_subset (hkeys r) hsubset).perm_of_length_le hlength
          exact .map fun key => hperm.mem_iff
      | _ => cases h
  | _ => cases h

theorem size_eq_of_sameNode (hkeys : heap.KeysDistinct) (h : SameNode heap a b) :
    size heap a = size heap b := by
  cases h with
  | list h => exact h
  | @map r s h =>
      have hperm := (List.perm_ext_iff_of_nodup (hkeys r) (hkeys s)).mpr h
      simpa [Heap.keys, size] using hperm.length_eq
  | _ => rfl

theorem eq_of_pairing?_same (h : pairing? a b = some c) (hsame : c.1 = c.2) : a = b := by
  cases a <;> cases b <;> cases h <;> cases hsame <;> rfl

theorem pairing?_injective {u v : Value} (h : pairing? a b = some c)
    (h' : pairing? u v = some c) : a = u ∧ b = v := by
  cases a <;> cases b <;> cases h <;> cases u <;> cases v <;> cases h' <;> exact ⟨rfl, rfl⟩

-- No path is a shortest one to a difference. What is open counts as equal, and so it is: to a
-- depth at which all that is open agrees, the parts agree, and then the two that are opened
-- agree one step further. This carries them down any path.
theorem Compared.sameUpTo (hkeys : heap.KeysDistinct) (h : Compared heap enclosing a b r)
    (hr : r = true) (ha : NoFloats heap a) (hb : NoFloats heap b)
    (henclosing : ∀ u v c, pairing? u v = some c → c ∈ enclosing → SameUpTo heap n u v) :
    SameUpTo heap n a b := by
  induction h generalizing n with
  | leaf hpair =>
      have hnode := sameNode_of_leaf ha hb hpair hr
      cases n with
      | zero => exact sameUpTo_zero
      | succ n =>
          apply sameUpTo_succ hnode
          intro step x y hx _
          obtain ⟨c, hc⟩ := pairing?_eq_some_of_branch hnode hx
          rw [hpair] at hc
          cases hc
  | met hpair hmet =>
      cases hmet with
      | inl hsame =>
          cases eq_of_pairing?_same hpair hsame
          exact sameUnfolding_iff_upTo.mp (.refl ha) n
      | inr hin => exact henclosing _ _ _ hpair hin
  | @opened enclosing a b c hpair hnew verdict hparts ih =>
      obtain ⟨hsize, hall⟩ := Bool.and_eq_true_iff.mp hr
      have hsize := of_decide_eq_true hsize
      have hfound : ∀ x, (x, none) ∉ parts heap a b := by
        intro x hmem
        cases List.all_eq_true.mp hall _ hmem
      have hnode := sameNode_of_parts hkeys hpair hsize hfound
      induction n with
      | zero => exact sameUpTo_zero
      | succ n ihn =>
          have hself : SameUpTo heap n a b :=
            ihn fun u v d hd hin => (henclosing u v d hd hin).of_le n.le_succ
          apply sameUpTo_succ hnode
          intro step x y hx hy
          have hmem := mem_parts_of_branch hkeys hx hy
          apply ih hsize x y hmem (List.all_eq_true.mp hall _ hmem) (ha.branch hx) (hb.branch hy)
          intro u v d hd hin
          cases List.mem_cons.mp hin with
          | inl heq =>
              obtain ⟨rfl, rfl⟩ := pairing?_injective hpair (heq ▸ hd)
              exact hself
          | inr hin => exact (henclosing u v d hd hin).of_le n.le_succ

theorem Compared.of_sameUnfolding (hkeys : heap.KeysDistinct) (h : Compared heap enclosing a b r)
    (hsame : SameUnfolding heap a b) : r = true := by
  induction h with
  | leaf hpair => exact leaf_of_sameNode hpair hsame.node
  | met => rfl
  | @opened enclosing a b c hpair hnew verdict hparts ih =>
      have hsize := size_eq_of_sameNode hkeys hsame.node
      rw [decide_eq_true hsize, Bool.true_and, List.all_eq_true]
      rintro ⟨x, o⟩ hmem
      obtain ⟨step, hx, ho⟩ := exists_branch_of_mem_parts hkeys hmem
      obtain ⟨y, hy⟩ := hsame.node.branch hx
      rw [hy] at ho
      subst ho
      exact ih hsize x y hmem (hsame.branch hx hy)

theorem eq_iff_sameUnfolding (hkeys : heap.KeysDistinct) (ha : NoFloats heap a)
    (hb : NoFloats heap b) : a.eq heap b = true ↔ SameUnfolding heap a b := by
  constructor
  · intro h
    rw [sameUnfolding_iff_upTo]
    intro n
    exact (compared_eq heap a b).sameUpTo hkeys h ha hb fun _ _ _ _ hin => nomatch hin
  · exact (compared_eq heap a b).of_sameUnfolding hkeys

-- Two maps with the same entries in another order.
theorem sameUnfolding_map_of_perm (hkeys : heap.KeysDistinct) {r s : Nat}
    (hr : NoFloats heap (.map r)) (h : (heap.entries r).Perm (heap.entries s)) :
    SameUnfolding heap (.map r) (.map s) := by
  have hbranch : ∀ step, (Value.map s).branch? heap step = (Value.map r).branch? heap step := by
    intro step
    cases step with
    | item i => rfl
    | entry key =>
        apply Option.ext
        intro x
        simp only [Value.branch?]
        rw [lookup_eq_some_iff_mem (hkeys r), lookup_eq_some_iff_mem (hkeys s), h.mem_iff]
  intro path x y hx hy
  cases path with
  | nil =>
      cases hx
      cases hy
      exact .map fun key => (h.map Prod.fst).mem_iff
  | cons step path =>
      rw [at?, hbranch] at hy
      exact (SameUnfolding.refl hr) (step :: path) x y hx hy

-- Equality of values is that of what they unfold into, also where they contain themselves.
theorem equality_of_unfoldings (hkeys : heap.KeysDistinct) :
    (∀ a b, Compared heap [] a b (a.eq heap b)) ∧
    (∀ a b, NoFloats heap a → NoFloats heap b →
      (a.eq heap b = true ↔ SameUnfolding heap a b)) ∧
    (∀ a, NoFloats heap a → a.eq heap a = true) ∧
    (∀ a b, NoFloats heap a → NoFloats heap b → a.eq heap b = true → b.eq heap a = true) ∧
    (∀ a b c, NoFloats heap a → NoFloats heap b → NoFloats heap c → a.eq heap b = true →
      b.eq heap c = true → a.eq heap c = true) ∧
    (∀ a b heap', NoFloats heap a → NoFloats heap b → Reordered heap heap' →
      a.eq heap' b = a.eq heap b) ∧
    (∀ r s, NoFloats heap (.map r) → NoFloats heap (.map s) →
      (heap.entries r).Perm (heap.entries s) → (map r).eq heap (map s) = true) := by
  refine ⟨compared_eq heap, fun a b => eq_iff_sameUnfolding hkeys, ?_, ?_, ?_, ?_, ?_⟩
  · intro a ha
    exact (eq_iff_sameUnfolding hkeys ha ha).mpr (.refl ha)
  · intro a b ha hb hab
    have hsame := (eq_iff_sameUnfolding hkeys ha hb).mp hab
    exact (eq_iff_sameUnfolding hkeys hb ha).mpr hsame.symm
  · intro a b c ha hb hc hab hbc
    have hsame := (eq_iff_sameUnfolding hkeys ha hb).mp hab
    have hsame' := (eq_iff_sameUnfolding hkeys hb hc).mp hbc
    exact (eq_iff_sameUnfolding hkeys ha hc).mpr (hsame.trans hsame')
  · intro a b heap' ha hb hreordered
    have ha' := (hreordered.noFloats hkeys).mpr ha
    have hb' := (hreordered.noFloats hkeys).mpr hb
    rw [Bool.eq_iff_iff, eq_iff_sameUnfolding (hreordered.keysDistinct hkeys) ha' hb',
      eq_iff_sameUnfolding hkeys ha hb]
    exact hreordered.sameUnfolding hkeys
  · intro r s hr hs hperm
    exact (eq_iff_sameUnfolding hkeys hr hs).mpr (sameUnfolding_map_of_perm hkeys hr hperm)

-- Two maps that hold, in another order, a number and a list with nothing in it but the map itself.
def entwined : Heap :=
  let h : Heap := ⟨#[[.map 0], [.map 1]], #[[], []], #[], #[]⟩
  let h := h.setEntries 0 (Heap.putEntry "size" (.int 1) (h.entries 0))
  let h := h.setEntries 0 (Heap.putEntry "self" (.list 0) (h.entries 0))
  let h := h.setEntries 1 (Heap.putEntry "self" (.list 1) (h.entries 1))
  h.setEntries 1 (Heap.putEntry "size" (.int 1) (h.entries 1))

theorem entwined_keysDistinct : entwined.KeysDistinct := by
  have hempty : Heap.KeysDistinct ⟨#[[.map 0], [.map 1]], #[[], []], #[], #[]⟩ := by
    intro ref
    match ref with
    | 0 => exact List.nodup_nil
    | 1 => exact List.nodup_nil
    | _ + 2 => exact List.nodup_nil
  exact (((hempty.setEntries _ _ _).setEntries _ _ _).setEntries _ _ _).setEntries _ _ _

theorem noFloats_entwined (ref : Nat) : NoFloats entwined (.map ref) := by
  apply NoFloats.of_cells
  · intro ref v hv d
    match ref with
    | 0 =>
        cases List.mem_singleton.mp hv
        nofun
    | 1 =>
        cases List.mem_singleton.mp hv
        nofun
    | _ + 2 => cases hv
  · intro ref e he d
    match ref with
    | 0 =>
        have hentries : entwined.entries 0 = [("size", .int 1), ("self", .list 0)] := rfl
        rw [hentries, List.mem_pair] at he
        obtain rfl | rfl := he <;> nofun
    | 1 =>
        have hentries : entwined.entries 1 = [("self", .list 1), ("size", .int 1)] := rfl
        rw [hentries, List.mem_pair] at he
        obtain rfl | rfl := he <;> nofun
    | _ + 2 => cases he
  · nofun

theorem equality_of_unfoldings_entwined :
    entwined.KeysDistinct ∧ NoFloats entwined (.map 0) ∧ NoFloats entwined (.map 1) ∧
      Compared entwined [] (.map 0) (.map 1) true ∧ SameUnfolding entwined (.map 0) (.map 1) := by
  have hkeys := entwined_keysDistinct
  have heq : (map 0).eq entwined (map 1) = true := by decide
  obtain ⟨hends, hiff, -⟩ := equality_of_unfoldings hkeys
  have hends := hends (.map 0) (.map 1)
  rw [heq] at hends
  exact ⟨hkeys, noFloats_entwined 0, noFloats_entwined 1, hends,
    (hiff _ _ (noFloats_entwined 0) (noFloats_entwined 1)).mp heq⟩

end Value

end Stencil
