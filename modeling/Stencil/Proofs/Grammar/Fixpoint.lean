import Mathlib.Algebra.Ring.Nat
import Stencil.Grammar.Ascending

namespace Stencil

-- A step that either changes nothing or makes its argument larger.
def Grows (size : α → Nat) (step : α → α) : Prop := ∀ a, step a = a ∨ size a < size (step a)

namespace Grows

variable {size : α → Nat} {step : α → α}

theorem size_le (h : Grows size step) (a : α) : size a ≤ size (step a) := by
  rcases h a with hsame | hlarger
  · exact Nat.le_of_eq (congrArg size hsame.symm)
  · exact Nat.le_of_lt hlarger

theorem comp {next : α → α} (h : Grows size step) (hnext : Grows size next) :
    Grows size (next ∘ step) := by
  intro a
  rcases h a with hsame | hlarger
  · simp only [Function.comp_apply, hsame]
    exact hnext a
  · exact .inr (Nat.lt_of_lt_of_le hlarger (hnext.size_le _))

theorem foldl {next : α → β → α} (h : ∀ b, Grows size (next · b)) (xs : List β) :
    Grows size (fun a => xs.foldl next a) := by
  induction xs with
  | nil => exact fun a => .inl rfl
  | cons x xs ih => exact (h x).comp ih

-- Steps that undo nothing leave a value as it is only if each of them does.
theorem fixed_of_comp {next : α → α} (h : Grows size step) (hnext : Grows size next) {a : α}
    (hfixed : next (step a) = a) : step a = a ∧ next a = a := by
  rcases h a with hsame | hlarger
  · rw [hsame] at hfixed
    exact ⟨hsame, hfixed⟩
  · have hle := hnext.size_le (step a)
    rw [hfixed] at hle
    omega

theorem fixed_of_foldl {next : α → β → α} (h : ∀ b, Grows size (next · b)) {xs : List β} {a : α}
    (hfixed : xs.foldl next a = a) : ∀ x ∈ xs, next a x = a := by
  induction xs with
  | nil => simp
  | cons x xs ih =>
      have hboth := (h x).fixed_of_comp (foldl h xs) hfixed
      intro y hy
      rcases List.mem_cons.mp hy with rfl | hy
      · exact hboth.1
      · exact ih hboth.2 y hy

end Grows

section Settle

variable [DecidableEq α] {step : α → α}

theorem settle_preserves {P : α → Prop} (hstep : ∀ a, P a → P (step a)) (fuel : Nat) {a : α}
    (ha : P a) : P (settle step fuel a) := by
  induction fuel generalizing a with
  | zero => exact ha
  | succ fuel ih =>
      simp only [settle]
      split
      · exact ha
      · exact ih (hstep a ha)

-- A loop that makes one round after another as long as a round makes its value larger: how many
-- rounds did, and what it ends with.
inductive Rounds (size : α → Nat) (step : α → α) : Nat → α → α → Prop
  | last {a : α} (hsame : size (step a) = size a) : Rounds size step 0 a (step a)
  | again {rounds : Nat} {a b : α} (hlarger : size a < size (step a))
      (hrest : Rounds size step rounds (step a) b) : Rounds size step (rounds + 1) a b

omit [DecidableEq α] in
theorem Rounds.fixed {size : α → Nat} (hgrows : Grows size step) {rounds : Nat} {a b : α}
    (h : Rounds size step rounds a b) : step b = b := by
  induction h with
  | last hsame =>
      rename_i a
      have hfixed : step a = a := (hgrows a).resolve_right (by omega)
      rw [hfixed, hfixed]
  | again _ _ ih => exact ih

-- Every round but the last makes the value larger, so a bound on its size bounds the rounds.
theorem settle_rounds {size : α → Nat} {P : α → Prop} {bound : Nat} (hgrows : Grows size step)
    (hstep : ∀ a, P a → P (step a)) (hbound : ∀ a, P a → size a ≤ bound) {fuel : Nat} {a : α}
    (ha : P a) (hfuel : bound < size a + fuel) :
    ∃ rounds < fuel, Rounds size step rounds a (settle step fuel a) := by
  induction fuel generalizing a with
  | zero =>
      have := hbound a ha
      omega
  | succ fuel ih =>
      simp only [settle]
      split
      · rename_i hfixed
        have hlast := Rounds.last (congrArg size hfixed)
        rw [hfixed] at hlast
        exact ⟨0, Nat.succ_pos _, hlast⟩
      · rename_i hchanged
        have hlarger := (hgrows a).resolve_left hchanged
        obtain ⟨rounds, hlt, hrest⟩ := ih (hstep a ha) (by omega)
        exact ⟨rounds + 1, Nat.succ_lt_succ hlt, .again hlarger hrest⟩

theorem settle_fixed {size : α → Nat} {P : α → Prop} {bound : Nat} (hgrows : Grows size step)
    (hstep : ∀ a, P a → P (step a)) (hbound : ∀ a, P a → size a ≤ bound) {fuel : Nat} {a : α}
    (ha : P a) (hfuel : bound < size a + fuel) :
    step (settle step fuel a) = settle step fuel a := by
  obtain ⟨_, _, hrounds⟩ := settle_rounds hgrows hstep hbound ha hfuel
  exact hrounds.fixed hgrows

end Settle

namespace Ascending

theorem insert_grows (n : Nat) : Grows List.length (insert n) := by
  intro s
  induction s with
  | nil => simp [insert, insertBy]
  | cons m rest ih =>
      simp only [insert, insertBy] at ih ⊢
      split
      · simp
      · split
        · simpa using ih
        · simp

theorem union_grows (t : List Nat) : Grows List.length (union · t) :=
  Grows.foldl (fun n => insert_grows n) t

theorem insert_ascending {n : Nat} {s : List Nat} (h : s.Pairwise (· < ·)) :
    (insert n s).Pairwise (· < ·) := by
  induction s with
  | nil => simp [insert, insertBy]
  | cons m rest ih =>
      obtain ⟨hm, hrest⟩ := List.pairwise_cons.mp h
      simp only [insert, insertBy, decide_eq_true_eq]
      split
      · rename_i hlt
        refine List.pairwise_cons.mpr ⟨?_, h⟩
        intro k hk
        rcases List.mem_cons.mp hk with rfl | hk
        · exact hlt
        · exact Nat.lt_trans hlt (hm k hk)
      · split
        · rename_i hlt
          refine List.pairwise_cons.mpr ⟨?_, ih hrest⟩
          intro k hk
          rcases mem_insert.mp hk with rfl | hk
          · exact hlt
          · exact hm k hk
        · exact h

theorem union_ascending {s t : List Nat} (h : s.Pairwise (· < ·)) :
    (union s t).Pairwise (· < ·) := by
  induction t generalizing s with
  | nil => exact h
  | cons n rest ih => exact ih (insert_ascending h)

theorem subset_of_union_eq {s t : List Nat} (h : union s t = s) : t ⊆ s := by
  intro n hn
  rw [← h]
  exact mem_union.mpr (.inr hn)

end Ascending

-- The sum of the sizes of the entries.
def weight (size : α → Nat) (xs : Array α) : Nat := (xs.toList.map size).sum

private theorem sum_modify {size : α → Nat} {f : α → α} (hf : Grows size f) (l : List α)
    (i : Nat) : l.modify i f = l ∨ (l.map size).sum < ((l.modify i f).map size).sum := by
  induction l generalizing i with
  | nil => simp
  | cons a rest ih =>
      cases i with
      | zero =>
          rcases hf a with hsame | hlarger
          · simp [hsame]
          · simp [hlarger]
      | succ i =>
          rcases ih i with hsame | hlarger
          · simp [hsame]
          · simp [hlarger]

theorem modify_grows {size : α → Nat} {f : α → α} (hf : Grows size f) (i : Nat) :
    Grows (weight size) (fun xs : Array α => xs.modify i f) := by
  intro xs
  rcases sum_modify hf xs.toList i with hsame | hlarger
  · left
    apply Array.toList_inj.mp
    rw [Array.toList_modify]
    exact hsame
  · right
    simpa only [weight, Array.toList_modify] using hlarger

theorem weight_le {size : α → Nat} {xs : Array α} {bound : Nat} (h : ∀ a ∈ xs, size a ≤ bound) :
    weight size xs ≤ xs.size * bound := by
  have hsum : ∀ l : List α, (∀ a ∈ l, size a ≤ bound) → (l.map size).sum ≤ l.length * bound := by
    intro l hl
    induction l with
    | nil => simp
    | cons a rest ih =>
        have ha := hl a (by simp)
        have hrest := ih (fun b hb => hl b (by simp [hb]))
        simp only [List.map_cons, List.sum_cons, List.length_cons, Nat.add_one_mul]
        omega
  exact hsum xs.toList (fun a ha => h a (by simpa using ha))

-- A family of sets, one for each index.
abbrev Sets := Array (List Nat)

namespace Sets

def total (sets : Sets) : Nat := weight List.length sets

-- A family of `count` sets of elements of `domain`.
structure Bounded (count : Nat) (domain : List Nat) (sets : Sets) : Prop where
  size_eq : sets.size = count
  ascending : ∀ s ∈ sets, s.Pairwise (· < ·)
  within : ∀ s ∈ sets, s ⊆ domain

theorem modify_union_grows (i : Nat) (gained : List Nat) :
    Grows total (fun sets : Sets => sets.modify i (Ascending.union · gained)) :=
  modify_grows (Ascending.union_grows gained) i

theorem mem_modify {f : List Nat → List Nat} {sets : Sets} {i : Nat} {s : List Nat}
    (h : s ∈ sets.modify i f) : s ∈ sets ∨ ∃ t ∈ sets, s = f t := by
  obtain ⟨j, hj⟩ := Array.mem_iff_getElem?.mp h
  rw [Array.getElem?_modify] at hj
  split at hj
  · obtain ⟨t, ht, rfl⟩ := Option.map_eq_some_iff.mp hj
    exact .inr ⟨t, Array.mem_of_getElem? ht, rfl⟩
  · exact .inl (Array.mem_of_getElem? hj)

theorem getD_modify (f : List Nat → List Nat) (sets : Sets) {i : Nat} (hi : i < sets.size)
    (j : Nat) :
    (sets.modify i f).getD j [] = if i = j then f (sets.getD j []) else sets.getD j [] := by
  simp only [Array.getD_eq_getD_getElem?, Array.getElem?_modify]
  by_cases hij : i = j
  · have hj : j < sets.size := hij ▸ hi
    simp [hij, hj]
  · simp [hij]

-- What is in a set after another one was united with something was there before, or is new.
theorem mem_getD_modify_union {sets : Sets} {i j n : Nat} {gained : List Nat}
    (h : n ∈ (sets.modify i (Ascending.union · gained)).getD j []) :
    n ∈ sets.getD j [] ∨ i = j ∧ n ∈ gained := by
  simp only [Array.getD_eq_getD_getElem?, Array.getElem?_modify] at h ⊢
  split at h
  · rename_i heq
    subst heq
    cases hset : sets[i]? with
    | none => simp [hset] at h
    | some s => simpa [hset, Ascending.mem_union] using h
  · exact .inl h

-- A step that unites a set with something and changes nothing shows that it was there already.
theorem subset_of_modify_eq {sets : Sets} {i : Nat} {gained : List Nat} (hi : i < sets.size)
    (h : sets.modify i (Ascending.union · gained) = sets) : gained ⊆ sets.getD i [] := by
  have hset := congrArg (fun sets : Sets => sets.getD i []) h
  simp only [getD_modify _ _ hi, if_true] at hset
  exact Ascending.subset_of_union_eq hset

namespace Bounded

variable {count : Nat} {domain : List Nat} {sets : Sets}

theorem getD_subset (h : Bounded count domain sets) (i : Nat) : sets.getD i [] ⊆ domain := by
  rw [Array.getD_eq_getD_getElem?]
  cases hi : sets[i]? with
  | none => simp
  | some s => exact h.within s (Array.mem_of_getElem? hi)

theorem modify_union (h : Bounded count domain sets) (i : Nat) {gained : List Nat}
    (hgained : gained ⊆ domain) :
    Bounded count domain (sets.modify i (Ascending.union · gained)) where
  size_eq := by rw [Array.size_modify, h.size_eq]
  ascending := by
    intro s hs
    rcases mem_modify hs with hs | ⟨t, ht, rfl⟩
    · exact h.ascending s hs
    · exact Ascending.union_ascending (h.ascending t ht)
  within := by
    intro s hs
    rcases mem_modify hs with hs | ⟨t, ht, rfl⟩
    · exact h.within s hs
    · intro n hn
      rcases Ascending.mem_union.mp hn with hn | hn
      · exact h.within t ht hn
      · exact hgained hn

theorem total_le (h : Bounded count domain sets) : sets.total ≤ count * domain.length := by
  rw [← h.size_eq]
  refine weight_le fun s hs => ?_
  have hnodup : s.Nodup := (h.ascending s hs).imp Nat.ne_of_lt
  exact hnodup.length_le_of_subset (h.within s hs)

end Bounded

end Sets

end Stencil
