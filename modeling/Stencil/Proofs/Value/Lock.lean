import Mathlib.Data.Nat.Find
import Stencil.Proofs.Value.Printed
import Stencil.Resolve.Locking

namespace Stencil

section Locking

variable {held : HeldLocks} {c : Container} {access : Access}

-- A reader is let in unless there is a writer.
theorem holding_read (act : Locking α) :
    holding c .read act held = if (c, .write) ∈ held then none else act ((c, .read) :: held) := by
  have hgrants : (held.state c).grants .read = true ↔ (c, .write) ∉ held := by
    simp only [HeldLocks.state, List.contains_iff_mem]
    split
    · rename_i hwrite
      simp [LockState.grants, hwrite]
    · rename_i hwrite
      split <;> simp [LockState.grants, hwrite]
  unfold holding
  by_cases hwrite : (c, .write) ∈ held
  · rw [if_neg (fun h => hgrants.mp h hwrite), if_pos hwrite]
  · rw [if_pos (hgrants.mpr hwrite), if_neg hwrite]

-- Where nothing is locked, every request is granted.
theorem holding_first (act : Locking α) : holding c access act [] = act [(c, access)] := by
  cases access <;> rfl

theorem mapM_cons_run (f : α → Locking β) (x : α) (xs : List α) :
    (x :: xs).mapM f held = (f x held).bind fun y => (xs.mapM f held).bind fun ys =>
      some (y :: ys) := by
  rw [List.mapM_cons]
  rfl

theorem mapM_eq_map {f : α → Locking β} {g : α → β} {xs : List α}
    (h : ∀ x ∈ xs, f x held = some (g x)) : xs.mapM f held = some (xs.map g) := by
  induction xs with
  | nil => rfl
  | cons x xs ih =>
      obtain ⟨hx, hxs⟩ := List.forall_mem_cons.mp h
      rw [mapM_cons_run, hx, ih hxs]
      rfl

-- One step that waits keeps all that come after it from being made.
theorem mapM_eq_none {f : α → Locking β} {x : α} {xs : List α} (hmem : x ∈ xs)
    (hx : f x held = none) : xs.mapM f held = none := by
  induction xs with
  | nil => cases hmem
  | cons y ys ih =>
      rw [mapM_cons_run]
      rcases List.mem_cons.mp hmem with rfl | hmem
      · rw [hx]
        rfl
      · rw [ih hmem]
        cases f y held <;> rfl

end Locking

namespace Value

-- How many containers and objects deep a container is opened in the text of a value.
inductive OpensIn (heap : Heap) : Nat → Value → Container → Prop
  | here {v : Value} {c : Container} (hv : v.container? = some c) : OpensIn heap 0 v c
  | inside {n : Nat} {v : Value} {c d : Container} {part : String × Value}
      (hv : v.container? = some d) (hpart : part ∈ d.parts heap) (h : OpensIn heap n part.2 c) :
      OpensIn heap (n + 1) v c
  | shown {n : Nat} {ref : Nat} {o : HostObject} {v : Value} {c : Container}
      (ho : heap.hosts[ref]? = some o) (hpiece : .value v ∈ o.display o.state)
      (h : OpensIn heap n v c) : OpensIn heap (n + 1) (.host ref) c

-- The container is opened somewhere in the text of the value.
def Opens (heap : Heap) (v : Value) (c : Container) : Prop := ∃ n, OpensIn heap n v c

-- The same on a way on which no container is met that encloses it, and no object that is shown.
inductive Route (heap : Heap) : List Nat → List Container → Value → Container → Prop
  | here {shown : List Nat} {enclosing : List Container} {v : Value} {c : Container}
      (hv : v.container? = some c) (hc : c ∉ enclosing) : Route heap shown enclosing v c
  | inside {shown : List Nat} {enclosing : List Container} {v : Value} {c d : Container}
      {part : String × Value} (hv : v.container? = some d) (hd : d ∉ enclosing)
      (hpart : part ∈ d.parts heap) (h : Route heap shown (d :: enclosing) part.2 c) :
      Route heap shown enclosing v c
  | shown {shown : List Nat} {enclosing : List Container} {ref : Nat} {o : HostObject} {v : Value}
      {c : Container} (href : ref ∉ shown) (ho : heap.hosts[ref]? = some o)
      (hpiece : .value v ∈ o.display o.state) (h : Route heap (ref :: shown) [] v c) :
      Route heap shown enclosing (.host ref) c

variable {heap : Heap} {v : Value} {c d : Container} {enclosing : List Container}
  {shown : List Nat} {held : HeldLocks} {fuel : Nat}

theorem Route.opens (h : Route heap shown enclosing v c) : v.Opens heap c := by
  induction h with
  | here hv => exact ⟨0, .here hv⟩
  | inside hv _ hpart _ ih =>
      obtain ⟨n, hn⟩ := ih
      exact ⟨n + 1, .inside hv hpart hn⟩
  | shown _ ho hpiece _ ih =>
      obtain ⟨n, hn⟩ := ih
      exact ⟨n + 1, .shown ho hpiece hn⟩

-- A shortest way meets nothing from which there is one that is as short.
theorem OpensIn.route {n : Nat} (h : OpensIn heap n v c) (hleast : ∀ m < n, ¬ OpensIn heap m v c)
    (henclosing : ∀ d ∈ enclosing, ∀ x, x.container? = some d → ∀ m ≤ n, ¬ OpensIn heap m x c)
    (hshown : ∀ ref ∈ shown, ∀ m ≤ n, ¬ OpensIn heap m (.host ref) c) :
    Route heap shown enclosing v c := by
  induction h generalizing shown enclosing with
  | @here v c hv =>
      refine .here hv fun hc => ?_
      exact henclosing c hc v hv 0 (Nat.le_refl 0) (.here hv)
  | @inside n v c d part hv hpart h ih =>
      have hself : OpensIn heap (n + 1) v c := .inside hv hpart h
      refine .inside hv (fun hd => henclosing d hd v hv _ (Nat.le_refl _) hself) hpart (ih ?_ ?_ ?_)
      · exact fun m hm hshorter => hleast (m + 1) (by omega) (.inside hv hpart hshorter)
      · refine List.forall_mem_cons.mpr ⟨fun x hx m hm => ?_, fun e he x hx m hm => ?_⟩
        · rw [eq_of_container? hx hv]
          exact hleast m (by omega)
        · exact henclosing e he x hx m (by omega)
      · exact fun ref href m hm => hshown ref href m (by omega)
  | @shown n ref o v c ho hpiece h ih =>
      have hself : OpensIn heap (n + 1) (.host ref) c := .shown ho hpiece h
      refine .shown (fun href => hshown ref href _ (Nat.le_refl _) hself) ho hpiece (ih ?_ ?_ ?_)
      · exact fun m hm hshorter => hleast (m + 1) (by omega) (.shown ho hpiece hshorter)
      · exact List.forall_mem_nil _
      · refine List.forall_mem_cons.mpr ⟨fun m hm => hleast m (by omega), ?_⟩
        exact fun other hother m hm => hshown other hother m (by omega)

theorem Opens.route (h : v.Opens heap c) : Route heap [] [] v c := by
  classical
  exact (Nat.find_spec h).route (fun m hm => Nat.find_min h hm) (List.forall_mem_nil _)
    (List.forall_mem_nil _)

theorem displayUnder_hint (hv : v.container? = some c) (hc : c ∈ enclosing) :
    displayUnder heap fuel shown enclosing v held = some c.hint := by
  have hcontains := List.contains_iff_mem.mpr hc
  cases v with
  | list ref | map ref =>
      cases hv
      cases fuel <;> rw [displayUnder, if_pos hcontains] <;> rfl
  | _ => cases hv

theorem displayUnder_opened (hv : v.container? = some c) (hc : c ∉ enclosing) :
    displayUnder heap (fuel + 1) shown enclosing v = holding c .read (do
      let texts ← (c.parts heap).mapM fun part =>
        (part.1 ++ ·) <$> displayUnder heap fuel shown (c :: enclosing) part.2
      return c.opening ++ ", ".intercalate texts ++ c.closing) := by
  have hcontains : ¬ enclosing.contains c = true := fun h => hc (List.contains_iff_mem.mp h)
  cases v with
  | list ref =>
      cases hv
      rw [displayUnder, if_neg hcontains, Container.parts, List.mapM_map]
      simp only [Function.comp_def, String.empty_append, id_map', Container.opening,
        Container.closing]
  | map ref =>
      cases hv
      rw [displayUnder, if_neg hcontains, Container.parts, List.mapM_map]
      rfl
  | _ => cases hv

theorem notMem_cons_read (h : (c, Access.write) ∉ held) :
    (c, Access.write) ∉ (d, Access.read) :: held := by
  simpa using h

-- A text that opens nothing which is locked for writing is made as if there were no locks.
theorem displayUnder_of_route
    (h : ∀ c, Route heap shown enclosing v c → (c, Access.write) ∉ held) :
    displayUnder heap fuel shown enclosing v held =
      some (displayWithin heap fuel shown enclosing v) := by
  induction fuel generalizing shown enclosing v held with
  | zero =>
      cases v <;> simp only [displayUnder, displayWithin]
      all_goals first | rfl | (split <;> rfl)
  | succ fuel ih =>
      cases hv : v.container? with
      | some c =>
          by_cases hc : c ∈ enclosing
          · rw [displayUnder_hint hv hc, displayWithin_hint hv hc]
          · have hparts : ∀ part ∈ c.parts heap,
                ((part.1 ++ ·) <$> displayUnder heap fuel shown (c :: enclosing) part.2)
                  ((c, .read) :: held) =
                some (part.1 ++ displayWithin heap fuel shown (c :: enclosing) part.2) := by
              intro part hpart
              have hfree : ∀ d, Route heap shown (c :: enclosing) part.2 d →
                  (d, Access.write) ∉ (c, Access.read) :: held :=
                fun d hd => notMem_cons_read (h d (.inside hv hc hpart hd))
              exact congrArg (Option.map (part.1 ++ ·)) (ih hfree)
            rw [displayUnder_opened hv hc, holding_read, if_neg (h c (.here hv hc)),
              displayWithin_opened hv hc]
            exact congrArg (Option.bind · _) (mapM_eq_map hparts)
      | none =>
          cases v with
          | list ref | map ref => cases hv
          | host ref =>
              rw [displayUnder, displayWithin]
              by_cases hshown : shown.contains ref = true
              · rw [if_pos hshown, if_pos hshown]
                rfl
              · rw [if_neg hshown, if_neg hshown]
                have hnew : ref ∉ shown := fun hmem => hshown (List.contains_iff_mem.mpr hmem)
                cases ho : heap.hosts[ref]? with
                | none => rfl
                | some o =>
                    refine congrArg (Option.map String.join) (mapM_eq_map fun piece hpiece => ?_)
                    cases piece with
                    | text s => rfl
                    | value v => exact ih fun c hc => h c (.shown hnew ho hpiece hc)
          | _ => rfl

-- A text that opens something which is locked for writing is never made.
theorem Route.displayUnder_eq_none (h : Route heap shown enclosing v c)
    (hwrite : (c, Access.write) ∈ held) (hw : heap.ShowsWithin fuel shown enclosing) :
    displayUnder heap fuel shown enclosing v held = none := by
  obtain ⟨fuel, rfl⟩ := Nat.exists_eq_succ_of_ne_zero (Nat.ne_zero_of_lt hw.room)
  induction h generalizing fuel held with
  | here hv hc => rw [displayUnder_opened hv hc, holding_read, if_pos hwrite]
  | @inside shown enclosing v c d part hv hd hpart h ih =>
      have hclosed : enclosing.contains d = false := by
        rw [← Bool.not_eq_true, List.contains_iff_mem]
        exact hd
      have hroom := hw.container hclosed (allocated_of_mem_parts hpart)
      obtain ⟨fuel, rfl⟩ := Nat.exists_eq_succ_of_ne_zero (Nat.ne_zero_of_lt hroom.room)
      rw [displayUnder_opened hv hd, holding_read]
      split
      · rfl
      · have hinside := ih (List.mem_cons_of_mem (d, Access.read) hwrite) fuel hroom
        have hnone := mapM_eq_none (f := fun part : String × Value =>
          (part.1 ++ ·) <$> displayUnder heap (fuel + 1) shown (d :: enclosing) part.2) hpart
          (congrArg (Option.map (part.1 ++ ·)) hinside)
        exact congrArg (Option.bind · _) hnone
  | @shown shown enclosing ref o v c href ho hpiece h ih =>
      have hnew : shown.contains ref = false := by
        rw [← Bool.not_eq_true, List.contains_iff_mem]
        exact href
      have hroom := hw.host hnew (Array.getElem?_eq_some_iff.mp ho).1
      obtain ⟨fuel, rfl⟩ := Nat.exists_eq_succ_of_ne_zero (Nat.ne_zero_of_lt hroom.room)
      have hinside := ih hwrite fuel hroom
      rw [displayUnder, if_neg (by simp [href]), ho]
      exact congrArg (Option.map String.join) (mapM_eq_none hpiece hinside)

-- A value whose text opens nothing that is locked for writing is printed at once.
theorem displayLocking_of_opens (h : ∀ c, v.Opens heap c → (c, Access.write) ∉ held) :
    v.displayLocking heap held = some (v.display heap) :=
  displayUnder_of_route fun c hc => h c hc.opens

theorem displayLocking_eq_none : v.displayLocking heap held = none ↔
    ∃ c, v.Opens heap c ∧ (c, Access.write) ∈ held := by
  constructor
  · intro hnone
    by_contra hfree
    push Not at hfree
    cases hnone.symm.trans (displayLocking_of_opens hfree)
  · rintro ⟨c, hopens, hwrite⟩
    exact hopens.route.displayUnder_eq_none hwrite (.start heap)

end Value

def Piece.value? : Piece → Option Value
  | text _ => none
  | value v => some v

namespace Value

-- The values that an object puts into its text.
def shownBy (heap : Heap) : Value → List Value
  | .host ref => (heap.hosts[ref]?).elim [] fun o => (o.display o.state).filterMap Piece.value?
  | _ => []

variable {heap : Heap} {v : Value} {c : Container}

theorem mem_shownBy {x : Value} : x ∈ v.shownBy heap ↔
    ∃ ref o, v = .host ref ∧ heap.hosts[ref]? = some o ∧ .value x ∈ o.display o.state := by
  cases v with
  | host ref =>
      cases ho : heap.hosts[ref]? with
      | none => simp [shownBy, ho]
      | some o =>
          simp only [shownBy, ho, Option.elim_some, List.mem_filterMap]
          constructor
          · rintro ⟨piece, hpiece, hx⟩
            cases piece <;> cases hx
            exact ⟨ref, o, rfl, ho, hpiece⟩
          · rintro ⟨_, o', ⟨⟩, ho', hpiece⟩
            cases ho.symm.trans ho'
            exact ⟨_, hpiece, rfl⟩
  | _ => simp [shownBy]

-- Values of two heaps that go together, and so do those in their texts.
structure Match (heap heap' : Heap) (R : Value → Value → Prop)
    (C : Container → Container → Prop) : Prop where
  container : ∀ {v v'}, R v v' → Option.Rel C v.container? v'.container?
  parts : ∀ {c c'}, C c c' →
    List.Forall₂ (fun part part' => R part.2 part'.2) (c.parts heap) (c'.parts heap')
  shown : ∀ {v v'}, R v v' → List.Forall₂ R (v.shownBy heap) (v'.shownBy heap')

section Match

variable {heap' : Heap} {R : Value → Value → Prop} {C : Container → Container → Prop}
  {v' : Value} {n : Nat}

theorem exists_of_forall₂ {R : α → β → Prop} {xs : List α} {ys : List β} {x : α}
    (h : List.Forall₂ R xs ys) (hx : x ∈ xs) : ∃ y ∈ ys, R x y := by
  induction h with
  | nil => cases hx
  | cons hxy _ ih =>
      rcases List.mem_cons.mp hx with rfl | hx
      · exact ⟨_, List.mem_cons_self, hxy⟩
      · obtain ⟨y, hy, hxy⟩ := ih hx
        exact ⟨y, List.mem_cons_of_mem _ hy, hxy⟩

theorem Match.symm (h : Match heap heap' R C) : Match heap' heap (flip R) (flip C) where
  container hv := by
    have hboth := h.container hv
    generalize container? _ = c at hboth ⊢
    generalize container? _ = c' at hboth ⊢
    cases hboth with
    | none => exact .none
    | some hc => exact .some hc
  parts hc := (h.parts hc).flip
  shown hv := (h.shown hv).flip

theorem Match.opensIn (h : Match heap heap' R C) (hv : R v v') (hopens : OpensIn heap n v c) :
    ∃ c', C c c' ∧ OpensIn heap' n v' c' := by
  have hcontainer {v v' : Value} {c : Container} (hv : R v v') (hc : v.container? = some c) :
      ∃ c', v'.container? = some c' ∧ C c c' := by
    have hboth := h.container hv
    rw [hc] at hboth
    generalize v'.container? = found at hboth
    cases hboth with
    | some hc => exact ⟨_, rfl, hc⟩
  induction hopens generalizing v' with
  | here hc =>
      obtain ⟨c', hc', hcc'⟩ := hcontainer hv hc
      exact ⟨c', hcc', .here hc'⟩
  | inside hd hpart _ ih =>
      obtain ⟨d', hd', hdd'⟩ := hcontainer hv hd
      obtain ⟨part', hpart', hR⟩ := exists_of_forall₂ (h.parts hdd') hpart
      obtain ⟨c', hcc', hinside⟩ := ih hR
      exact ⟨c', hcc', .inside hd' hpart' hinside⟩
  | shown ho hpiece _ ih =>
      have hshown : _ ∈ (host _).shownBy heap := mem_shownBy.mpr ⟨_, _, rfl, ho, hpiece⟩
      obtain ⟨x', hx', hR⟩ := exists_of_forall₂ (h.shown hv) hshown
      obtain ⟨ref', o', rfl, ho', hpiece'⟩ := mem_shownBy.mp hx'
      obtain ⟨c', hcc', hinside⟩ := ih hR
      exact ⟨c', hcc', .shown ho' hpiece' hinside⟩

theorem forall₂_value? {pieces pieces' : List Piece}
    (h : List.Forall₂ (fun p p' => Option.Rel R p.value? p'.value?) pieces pieces') :
    List.Forall₂ R (pieces.filterMap Piece.value?) (pieces'.filterMap Piece.value?) :=
  List.rel_filterMap (fun _ _ hpiece => hpiece) h

-- What goes together is opened together.
theorem Match.opens_iff (h : Match heap heap' R C) (hC : OneToOne C) {c' : Container}
    (hv : R v v') (hc : C c c') : v'.Opens heap' c' ↔ v.Opens heap c := by
  constructor
  · rintro ⟨n, hopens⟩
    obtain ⟨d, hd, hopens'⟩ := h.symm.opensIn hv hopens
    exact ⟨n, (hC hd hc).mpr rfl ▸ hopens'⟩
  · rintro ⟨n, hopens⟩
    obtain ⟨d, hd, hopens'⟩ := h.opensIn hv hopens
    exact ⟨n, (hC hd hc).mp rfl ▸ hopens'⟩

end Match

end Value

end Stencil
