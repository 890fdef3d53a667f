import Mathlib.Data.Finset.Prod
import Mathlib.Data.Finset.Range
import Stencil.Proofs.Alike.Heap
import Stencil.Value.Equality

namespace Stencil

variable {ρ : Renaming} {h h' : Heap}

theorem map_eq_of_forall₂ {R : α → β → Prop} {f : α → γ} {g : β → γ} {xs : List α}
    {ys : List β} (h : List.Forall₂ R xs ys) (hfg : ∀ {x y}, R x y → g y = f x) :
    ys.map g = xs.map f := by
  induction h with
  | nil => rfl
  | cons hxy _ ih => rw [List.map_cons, List.map_cons, hfg hxy, ih]

theorem all_eq_of_forall₂ {R : α → β → Prop} {f : α → Bool} {g : β → Bool} {xs : List α}
    {ys : List β} (h : List.Forall₂ R xs ys) (hfg : ∀ {x y}, R x y → g y = f x) :
    ys.all g = xs.all f := by
  induction h with
  | nil => rfl
  | cons hxy _ ih => rw [List.all_cons, List.all_cons, hfg hxy, ih]

-- What is in one list stands for what is in the other.
theorem contains_eq_of_forall₂ [BEq α] [LawfulBEq α] {R : α → α → Prop} (hR : OneToOne R)
    {xs ys : List α} (h : List.Forall₂ R xs ys) {x y : α} (hxy : R x y) :
    ys.contains y = xs.contains x := by
  induction h with
  | nil => rfl
  | @cons a b _ _ hab _ ih =>
      have hsame : (x == a) = (y == b) := by
        rw [Bool.eq_iff_iff, beq_iff_eq, beq_iff_eq]
        exact hR hxy hab
      rw [List.contains_cons, List.contains_cons, ih, hsame]

theorem forall₂_zip {R : α → β → Prop} {xs xs' : List α} {ys ys' : List β}
    (h : List.Forall₂ R xs ys) (h' : List.Forall₂ R xs' ys') :
    List.Forall₂ (fun p q => R p.1 q.1 ∧ R p.2 q.2) (xs.zip xs') (ys.zip ys') := by
  induction h generalizing xs' ys' with
  | nil => exact .nil
  | cons hxy _ ih =>
      cases h' with
      | nil => exact .nil
      | cons hxy' hrest => exact .cons ⟨hxy, hxy'⟩ (ih hrest)

namespace Container

def cell : Container → Cell
  | list ref => .list ref
  | map ref => .map ref

theorem cell_injective {c d : Container} (h : c.cell = d.cell) : c = d := by
  cases c <;> cases d <;> cases h <;> rfl

def Alike (ρ : Renaming) (c d : Container) : Prop := ρ.cells c.cell d.cell

theorem alike_oneToOne (ρ : Renaming) : OneToOne (Alike ρ) := by
  intro a b c d hab hcd
  have hcells := ρ.cells_oneToOne hab hcd
  exact ⟨fun heq => cell_injective (hcells.mp (heq ▸ rfl)),
    fun heq => cell_injective (hcells.mpr (heq ▸ rfl))⟩

end Container

-- How far the text of a value goes: no container is open twice between two objects, and no object
-- is shown twice. Whatever is left of the fuel is enough for the rest.
structure Heap.ShowsWithin (h : Heap) (fuel : Nat) (shown : List Nat) (enclosing : List Container) :
    Prop where
  shown_nodup : shown.Nodup
  shown_allocated : ∀ ref ∈ shown, ref < h.hosts.size
  enclosing_nodup : enclosing.Nodup
  enclosing_allocated : ∀ c ∈ enclosing, h.Allocated c.cell
  room : (h.hosts.size - shown.length) * (h.lists.size + h.maps.size + 1) +
    (h.lists.size + h.maps.size - enclosing.length) < fuel

namespace Heap.ShowsWithin

variable {fuel : Nat} {shown : List Nat} {enclosing : List Container}

theorem start (h : Heap) : h.ShowsWithin (Value.displayDepth h) [] [] where
  shown_nodup := List.nodup_nil
  shown_allocated := List.forall_mem_nil _
  enclosing_nodup := List.nodup_nil
  enclosing_allocated := List.forall_mem_nil _
  room := by
    simp only [Value.displayDepth, List.length_nil, Nat.sub_zero, Nat.add_mul]
    omega

theorem length_enclosing (hd : enclosing.Nodup) (ha : ∀ c ∈ enclosing, h.Allocated c.cell) :
    enclosing.length ≤ h.lists.size + h.maps.size := by
  have hsubset : enclosing.toFinset ⊆ (Finset.range h.lists.size).image Container.list ∪
      (Finset.range h.maps.size).image Container.map := by
    intro c hc
    have hallocated := ha c (List.mem_toFinset.mp hc)
    cases c with
    | list ref => simpa [Container.cell, Heap.Allocated] using hallocated
    | map ref => simpa [Container.cell, Heap.Allocated] using hallocated
  calc enclosing.length = enclosing.toFinset.card := (List.toFinset_card_of_nodup hd).symm
    _ ≤ _ := Finset.card_le_card hsubset
    _ ≤ _ := Finset.card_union_le _ _
    _ ≤ (Finset.range h.lists.size).card + (Finset.range h.maps.size).card :=
      Nat.add_le_add Finset.card_image_le Finset.card_image_le
    _ = h.lists.size + h.maps.size := by rw [Finset.card_range, Finset.card_range]

theorem length_shown (hd : shown.Nodup) (ha : ∀ ref ∈ shown, ref < h.hosts.size) :
    shown.length ≤ h.hosts.size := by
  have hsubset : shown.toFinset ⊆ Finset.range h.hosts.size := by
    intro ref href
    exact Finset.mem_range.mpr (ha ref (List.mem_toFinset.mp href))
  rw [← List.toFinset_card_of_nodup hd, ← Finset.card_range h.hosts.size]
  exact Finset.card_le_card hsubset

theorem container (hw : h.ShowsWithin (fuel + 1) shown enclosing) {c : Container}
    (hc : enclosing.contains c = false) (ha : h.Allocated c.cell) :
    h.ShowsWithin fuel shown (c :: enclosing) := by
  have hnodup : (c :: enclosing).Nodup := by
    refine List.nodup_cons.mpr ⟨fun hmem => ?_, hw.enclosing_nodup⟩
    rw [List.contains_iff_mem.mpr hmem] at hc
    cases hc
  have hallocated : ∀ d ∈ c :: enclosing, h.Allocated d.cell :=
    List.forall_mem_cons.mpr ⟨ha, hw.enclosing_allocated⟩
  have hlength := length_enclosing hnodup hallocated
  have hroom := hw.room
  rw [List.length_cons] at hlength
  refine ⟨hw.shown_nodup, hw.shown_allocated, hnodup, hallocated, ?_⟩
  rw [List.length_cons]
  omega

theorem host (hw : h.ShowsWithin (fuel + 1) shown enclosing) {ref : Nat}
    (hc : shown.contains ref = false) (ha : ref < h.hosts.size) :
    h.ShowsWithin fuel (ref :: shown) [] := by
  have hnodup : (ref :: shown).Nodup := by
    refine List.nodup_cons.mpr ⟨fun hmem => ?_, hw.shown_nodup⟩
    rw [List.contains_iff_mem.mpr hmem] at hc
    cases hc
  have hallocated : ∀ other ∈ ref :: shown, other < h.hosts.size :=
    List.forall_mem_cons.mpr ⟨ha, hw.shown_allocated⟩
  have hlength := length_shown hnodup hallocated
  have hroom := hw.room
  rw [List.length_cons] at hlength
  refine ⟨hnodup, hallocated, List.nodup_nil, List.forall_mem_nil _, ?_⟩
  -- One object less makes room for all containers.
  have hstep : h.hosts.size - shown.length = (h.hosts.size - (shown.length + 1)) + 1 := by omega
  rw [hstep, Nat.add_mul] at hroom
  rw [List.length_cons, List.length_nil]
  omega

end Heap.ShowsWithin

namespace Value

variable {u u' v v' : Value}

-- Any fuel that is enough gives the same text.
theorem displayWithin_alike (hh : h.Alike ρ h') {fuel fuel' : Nat} {shown shown' : List Nat}
    {enclosing enclosing' : List Container} (hw : h.ShowsWithin fuel shown enclosing)
    (hw' : h'.ShowsWithin fuel' shown' enclosing')
    (hshown : List.Forall₂ (fun a b => ρ.cells (.host a) (.host b)) shown shown')
    (henclosing : List.Forall₂ (Container.Alike ρ) enclosing enclosing') (hv : v.Alike ρ v') :
    displayWithin h' fuel' shown' enclosing' v' = displayWithin h fuel shown enclosing v := by
  induction fuel generalizing fuel' shown shown' enclosing enclosing' v v' with
  | zero => exact absurd hw.room (Nat.not_lt_zero _)
  | succ fuel ih =>
      obtain ⟨fuel', rfl⟩ := Nat.exists_eq_succ_of_ne_zero (Nat.ne_zero_of_lt hw'.room)
      cases hv with
      | plain hplain => cases v <;> first | rfl | cases hplain
      | @list a b hab =>
          have hopen := contains_eq_of_forall₂ (Container.alike_oneToOne ρ) henclosing
            (x := .list a) (y := .list b) hab
          simp only [displayWithin, hopen]
          split
          · rfl
          · rename_i hclosed
            rw [Bool.not_eq_true] at hclosed
            obtain ⟨ha, hb⟩ := hh.allocated hab
            rw [map_eq_of_forall₂ (hh.items hab) fun hitem =>
              ih (hw.container hclosed ha) (hw'.container (hopen.trans hclosed) hb) hshown
                (.cons hab henclosing) hitem]
      | @map a b hab =>
          have hopen := contains_eq_of_forall₂ (Container.alike_oneToOne ρ) henclosing
            (x := .map a) (y := .map b) hab
          simp only [displayWithin, hopen]
          split
          · rfl
          · rename_i hclosed
            rw [Bool.not_eq_true] at hclosed
            obtain ⟨ha, hb⟩ := hh.allocated hab
            rw [map_eq_of_forall₂ (hh.entries hab)
              (f := fun e => e.1 ++ ": " ++ displayWithin h fuel shown (.map a :: enclosing) e.2)
              fun hentry => ?_]
            rw [hentry.1, ih (hw.container hclosed ha) (hw'.container (hopen.trans hclosed) hb)
              hshown (.cons hab henclosing) hentry.2]
      | @host a b hab =>
          have hone : OneToOne fun a b => ρ.cells (.host a) (.host b) := by
            intro a b c d hab hcd
            simpa using ρ.cells_oneToOne hab hcd
          have hopen := contains_eq_of_forall₂ hone hshown hab
          simp only [displayWithin, hopen]
          split
          · rfl
          · rename_i hclosed
            rw [Bool.not_eq_true] at hclosed
            obtain ⟨ha, hb⟩ := hh.allocated hab
            obtain ⟨o, state, ho, ho', uniform, hstate⟩ := hh.host hab
            simp only [ho, ho']
            refine congrArg String.join (map_eq_of_forall₂ (uniform.display hstate) ?_)
            intro piece piece' hpiece
            cases hpiece with
            | text => rfl
            | value hvalue =>
                exact ih (hw.host hclosed ha) (hw'.host (hopen.trans hclosed) hb)
                  (.cons hab hshown) .nil hvalue
      | _ => rfl

theorem Alike.display (hh : h.Alike ρ h') (hv : v.Alike ρ v') : v'.display h' = v.display h :=
  displayWithin_alike hh (.start h) (.start h') .nil .nil hv

end Value

-- Two containers that are compared are of one kind.
inductive Heap.Comparable (h : Heap) : Container × Container → Prop
  | lists {a b} (ha : h.Allocated (.list a)) (hb : h.Allocated (.list b)) :
      Comparable h (.list a, .list b)
  | maps {a b} (ha : h.Allocated (.map a)) (hb : h.Allocated (.map b)) :
      Comparable h (.map a, .map b)

-- How far a comparison goes: no pair of containers is open twice.
structure Heap.ComparesWithin (h : Heap) (fuel : Nat) (enclosing : List (Container × Container)) :
    Prop where
  nodup : enclosing.Nodup
  allocated : ∀ p ∈ enclosing, h.Comparable p
  room : h.lists.size * h.lists.size + h.maps.size * h.maps.size - enclosing.length < fuel

namespace Heap.ComparesWithin

variable {fuel : Nat} {enclosing : List (Container × Container)}

theorem start (h : Heap) : h.ComparesWithin (Value.eqDepth h) [] where
  nodup := List.nodup_nil
  allocated := List.forall_mem_nil _
  room := by simp [Value.eqDepth]

theorem length_le (hd : enclosing.Nodup) (ha : ∀ p ∈ enclosing, h.Comparable p) :
    enclosing.length ≤ h.lists.size * h.lists.size + h.maps.size * h.maps.size := by
  let lists := Finset.range h.lists.size
  let maps := Finset.range h.maps.size
  have hsubset : enclosing.toFinset ⊆
      (lists ×ˢ lists).image (fun p => (Container.list p.1, Container.list p.2)) ∪
        (maps ×ˢ maps).image fun p => (Container.map p.1, Container.map p.2) := by
    intro p hp
    cases ha p (List.mem_toFinset.mp hp) with
    | @lists a b ha hb =>
        have hbounds : a < h.lists.size ∧ b < h.lists.size := ⟨ha, hb⟩
        simpa [lists, maps] using hbounds
    | @maps a b ha hb =>
        have hbounds : a < h.maps.size ∧ b < h.maps.size := ⟨ha, hb⟩
        simpa [lists, maps] using hbounds
  calc enclosing.length = enclosing.toFinset.card := (List.toFinset_card_of_nodup hd).symm
    _ ≤ _ := Finset.card_le_card hsubset
    _ ≤ _ := Finset.card_union_le _ _
    _ ≤ (lists ×ˢ lists).card + (maps ×ˢ maps).card :=
      Nat.add_le_add Finset.card_image_le Finset.card_image_le
    _ = _ := by simp [lists, maps, Finset.card_product]

theorem pair (hw : h.ComparesWithin (fuel + 1) enclosing) {p : Container × Container}
    (hp : enclosing.contains p = false) (ha : h.Comparable p) :
    h.ComparesWithin fuel (p :: enclosing) := by
  have hnodup : (p :: enclosing).Nodup := by
    refine List.nodup_cons.mpr ⟨fun hmem => ?_, hw.nodup⟩
    rw [List.contains_iff_mem.mpr hmem] at hp
    cases hp
  have hallocated : ∀ q ∈ p :: enclosing, h.Comparable q :=
    List.forall_mem_cons.mpr ⟨ha, hw.allocated⟩
  have hlength := length_le hnodup hallocated
  have hroom := hw.room
  rw [List.length_cons] at hlength
  refine ⟨hnodup, hallocated, ?_⟩
  rw [List.length_cons]
  omega

end Heap.ComparesWithin

def Container.PairAlike (ρ : Renaming) (p q : Container × Container) : Prop :=
  p.1.Alike ρ q.1 ∧ p.2.Alike ρ q.2

theorem Container.pairAlike_oneToOne (ρ : Renaming) : OneToOne (PairAlike ρ) := by
  intro p q p' q' hpq hpq'
  rw [Prod.ext_iff, Prod.ext_iff, alike_oneToOne ρ hpq.1 hpq'.1, alike_oneToOne ρ hpq.2 hpq'.2]

namespace Value

variable {u u' v v' : Value}

-- Two values are told apart on one side just when those that stand for them are on the other.
theorem eqWithin_alike (hh : h.Alike ρ h') {fuel fuel' : Nat}
    {enclosing enclosing' : List (Container × Container)} (hw : h.ComparesWithin fuel enclosing)
    (hw' : h'.ComparesWithin fuel' enclosing')
    (henclosing : List.Forall₂ (Container.PairAlike ρ) enclosing enclosing')
    (hu : u.Alike ρ u') (hv : v.Alike ρ v') :
    eqWithin h' fuel' enclosing' u' v' = eqWithin h fuel enclosing u v := by
  induction fuel generalizing fuel' enclosing enclosing' u u' v v' with
  | zero => exact absurd hw.room (Nat.not_lt_zero _)
  | succ fuel ih =>
      obtain ⟨fuel', rfl⟩ := Nat.exists_eq_succ_of_ne_zero (Nat.ne_zero_of_lt hw'.room)
      cases hu with
      | plain hplain =>
          cases hv with
          | plain hplain' => cases u <;> cases v <;> first | rfl | cases hplain
          | _ => cases u <;> first | rfl | cases hplain
      | @list a a' ha =>
          cases hv with
          | plain hplain => cases v <;> first | rfl | cases hplain
          | @list b b' hb =>
              have hpair : Container.PairAlike ρ (.list a, .list b) (.list a', .list b') := ⟨ha, hb⟩
              have hopen := contains_eq_of_forall₂ (Container.pairAlike_oneToOne ρ) henclosing hpair
              have hsame : decide (a' = b') = decide (a = b) := by
                simpa using (ρ.cells_oneToOne ha hb).symm
              obtain ⟨haa, haa'⟩ := hh.allocated ha
              obtain ⟨hba, hba'⟩ := hh.allocated hb
              have hitems := hh.items ha
              have hitems' := hh.items hb
              simp only [eqWithin, hopen, hsame, hitems.length_eq, hitems'.length_eq]
              split
              · rfl
              · rename_i hclosed
                have hclosed : enclosing.contains (.list a, .list b) = false := by simp_all
                rw [all_eq_of_forall₂ (forall₂_zip hitems hitems') fun hxy =>
                  ih (hw.pair hclosed (.lists haa hba))
                    (hw'.pair (hopen.trans hclosed) (.lists haa' hba'))
                    (.cons hpair henclosing) hxy.1 hxy.2]
          | _ => rfl
      | @map a a' ha =>
          cases hv with
          | plain hplain => cases v <;> first | rfl | cases hplain
          | @map b b' hb =>
              have hpair : Container.PairAlike ρ (.map a, .map b) (.map a', .map b') := ⟨ha, hb⟩
              have hopen := contains_eq_of_forall₂ (Container.pairAlike_oneToOne ρ) henclosing hpair
              have hsame : decide (a' = b') = decide (a = b) := by
                simpa using (ρ.cells_oneToOne ha hb).symm
              obtain ⟨haa, haa'⟩ := hh.allocated ha
              obtain ⟨hba, hba'⟩ := hh.allocated hb
              have hentries := hh.entries ha
              have hentries' := hh.entries hb
              simp only [eqWithin, hopen, hsame, hentries.length_eq, hentries'.length_eq]
              split
              · rfl
              · rename_i hclosed
                have hclosed : enclosing.contains (.map a, .map b) = false := by simp_all
                refine congrArg _ (all_eq_of_forall₂ hentries fun {e e'} hentry => ?_)
                have hfound := Entry.lookup_alike hentries' e.1
                simp only [hentry.1]
                generalize (h.entries b).lookup e.1 = y at hfound ⊢
                generalize (h'.entries b').lookup e.1 = y' at hfound ⊢
                cases hfound with
                | none => rfl
                | some hy =>
                    exact ih (hw.pair hclosed (.maps haa hba))
                      (hw'.pair (hopen.trans hclosed) (.maps haa' hba')) (.cons hpair henclosing)
                      hentry.2 hy
          | _ => rfl
      | iter ha =>
          cases hv with
          | plain hplain => cases v <;> first | rfl | cases hplain
          | iter hb => simpa [eqWithin] using (ρ.cells_oneToOne ha hb).symm
          | _ => rfl
      | host ha =>
          cases hv with
          | plain hplain => cases v <;> first | rfl | cases hplain
          | host hb => simpa [eqWithin] using (ρ.cells_oneToOne ha hb).symm
          | _ => rfl
      | function ha =>
          cases hv with
          | plain hplain => cases v <;> first | rfl | cases hplain
          | function hb => simp [eqWithin, ρ.origins_oneToOne ha hb]
          | _ => rfl
      | native =>
          cases hv with
          | plain hplain => cases v <;> rfl
          | _ => rfl

theorem Alike.eq (hh : h.Alike ρ h') (hu : u.Alike ρ u') (hv : v.Alike ρ v') :
    u'.eq h' v' = u.eq h v :=
  eqWithin_alike hh (.start h) (.start h') .nil hu hv

end Value

end Stencil
