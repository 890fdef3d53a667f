import Mathlib.Logic.Relation
import Stencil.Grammar.Automaton
import Stencil.Proofs.Grammar.Fixpoint

namespace Stencil

namespace Grammar

-- What a grammar promises once it was checked.
structure Valid (g : Grammar) : Prop where
  rules_pos : 0 < g.rules.size
  left_lt : ∀ rule ∈ g.rules, rule.left < g.nonterminals
  knows : ∀ rule ∈ g.rules, ∀ symbol ∈ rule.right, g.knows symbol = true

theorem knows_of_unknownFrom {g : Grammar} {rules : List Rule} {i : Nat}
    (h : g.unknownFrom i rules = none) :
    ∀ rule ∈ rules, ∀ symbol ∈ Symbol.nonterminal rule.left :: rule.right,
      g.knows symbol = true := by
  induction rules generalizing i with
  | nil => simp
  | cons rule rest ih =>
      simp only [unknownFrom] at h
      split at h
      · cases h
      · rename_i hknown
        intro other hother symbol hsymbol
        rcases List.mem_cons.mp hother with rfl | hother
        · simpa using List.find?_eq_none.mp hknown symbol hsymbol
        · exact ih h other hother symbol hsymbol

theorem valid_of_validate {g : Grammar} (h : g.validate = .ok ()) : g.Valid := by
  simp only [validate] at h
  split at h
  · cases h
  · rename_i hnonempty
    split at h
    · cases h
    · rename_i hunknown
      have hknows := knows_of_unknownFrom hunknown
      refine ⟨?_, ?_, ?_⟩
      · simpa [Array.isEmpty_iff, Array.size_pos_iff] using hnonempty
      · intro rule hrule
        simpa [knows] using hknows rule (by simpa using hrule) (.nonterminal rule.left) (by simp)
      · intro rule hrule symbol hsymbol
        exact hknows rule (by simpa using hrule) symbol (by simp [hsymbol])

theorem Valid.nonterminal_lt {g : Grammar} (hg : g.Valid) {rule : Rule} (hrule : rule ∈ g.rules)
    {n : Nat} (hn : .nonterminal n ∈ rule.right) : n < g.nonterminals := by
  simpa [Grammar.knows] using hg.knows rule hrule _ hn

-- What holds of a family and is kept by every rule holds after all rules.
theorem foldl_rules {g : Grammar} {P : α → Prop} {step : α → Rule → α}
    (hstep : ∀ a, P a → ∀ rule ∈ g.rules, P (step a rule)) {a : α} (ha : P a) :
    P (g.rules.foldl step a) := by
  rw [← Array.foldl_toList]
  have hall : ∀ rules : List Rule, (∀ rule ∈ rules, rule ∈ g.rules) → ∀ a, P a →
      P (rules.foldl step a) := by
    intro rules
    induction rules with
    | nil => exact fun _ a ha => ha
    | cons rule rest ih =>
        intro hrules a ha
        exact ih (fun r hr => hrules r (by simp [hr])) _ (hstep a ha rule (hrules rule (by simp)))
  exact hall _ (fun rule hrule => by simpa using hrule) a ha

theorem foldl_rules_grows {g : Grammar} {size : α → Nat} {step : α → Rule → α}
    (hstep : ∀ rule, Grows size (step · rule)) :
    Grows size (fun a => g.rules.foldl step a) := by
  intro a
  simp only [← Array.foldl_toList]
  exact Grows.foldl hstep _ a

theorem fixed_of_foldl_rules {g : Grammar} {size : α → Nat} {step : α → Rule → α}
    (hstep : ∀ rule, Grows size (step · rule)) {a : α} (h : g.rules.foldl step a = a) :
    ∀ rule ∈ g.rules, step a rule = a := by
  rw [← Array.foldl_toList] at h
  exact fun rule hrule => Grows.fixed_of_foldl hstep h rule (by simpa using hrule)

-- A rule of `m` starts with `n`.
def StartsWith (g : Grammar) (m n : Nat) : Prop :=
  ∃ rule ∈ g.rules, ∃ rest, rule.left = m ∧ rule.right = .nonterminal n :: rest

abbrev LeftReaches (g : Grammar) : Nat → Nat → Prop := Relation.ReflTransGen g.StartsWith

-- What one rule adds to the left corners.
def absorbCorner (corners : Sets) (rule : Rule) : Sets :=
  match rule.right with
  | .nonterminal m :: _ => corners.modify rule.left (Ascending.union · (corners.getD m []))
  | _ => corners

theorem leftCornerRound_eq (g : Grammar) (corners : Sets) :
    g.leftCornerRound corners = g.rules.foldl absorbCorner corners := rfl

theorem absorbCorner_grows (rule : Rule) : Grows Sets.total (absorbCorner · rule) := by
  intro corners
  simp only [absorbCorner]
  split
  · exact Sets.modify_union_grows _ _ corners
  · exact .inl rfl

theorem leftCornerRound_grows (g : Grammar) : Grows Sets.total g.leftCornerRound :=
  foldl_rules_grows absorbCorner_grows

-- Every set holds its own non-terminal and only what can be reached from it.
structure CornersSound (g : Grammar) (corners : Sets) : Prop where
  bounded : Sets.Bounded g.nonterminals (List.range g.nonterminals) corners
  self : ∀ n < g.nonterminals, n ∈ corners.getD n []
  reaches : ∀ m, ∀ n ∈ corners.getD m [], g.LeftReaches m n

theorem CornersSound.absorb {g : Grammar} (hg : g.Valid) {corners : Sets}
    (h : g.CornersSound corners) {rule : Rule} (hrule : rule ∈ g.rules) :
    g.CornersSound (absorbCorner corners rule) := by
  simp only [absorbCorner]
  split
  · rename_i m rest hright
    have hleft : rule.left < corners.size := by
      rw [h.bounded.size_eq]
      exact hg.left_lt rule hrule
    refine ⟨h.bounded.modify_union _ (h.bounded.getD_subset m), ?_, ?_⟩
    · intro n hn
      rw [Sets.getD_modify _ _ hleft]
      split
      · exact Ascending.mem_union.mpr (.inl (h.self n hn))
      · exact h.self n hn
    · intro k n hn
      rw [Sets.getD_modify _ _ hleft] at hn
      split at hn
      · rename_i hk
        rcases Ascending.mem_union.mp hn with hn | hn
        · exact h.reaches k n hn
        · exact .head ⟨rule, hrule, rest, hk, hright⟩ (h.reaches m n hn)
      · exact h.reaches k n hn
  · exact h

theorem CornersSound.round {g : Grammar} (hg : g.Valid) {corners : Sets}
    (h : g.CornersSound corners) : g.CornersSound (g.leftCornerRound corners) := by
  rw [leftCornerRound_eq]
  exact foldl_rules (fun _ h _ hrule => h.absorb hg hrule) h

theorem cornersSound_start (g : Grammar) :
    g.CornersSound (Array.ofFn fun n : Fin g.nonterminals => [n.val]) where
  bounded := by
    refine ⟨Array.size_ofFn, ?_, ?_⟩ <;> intro s hs <;> obtain ⟨n, rfl⟩ := Array.mem_ofFn.mp hs
    · simp
    · simp
  self := by
    intro n hn
    simp [Array.getD_eq_getD_getElem?, hn]
  reaches := by
    intro m n hn
    rw [Array.getD_eq_getD_getElem?, Array.getElem?_ofFn] at hn
    split at hn
    · have hnm : n = m := by simpa using hn
      subst hnm
      exact .refl
    · simp at hn

theorem leftCorners_sound {g : Grammar} (hg : g.Valid) : g.CornersSound g.leftCorners :=
  settle_preserves (fun _ h => h.round hg) _ g.cornersSound_start

theorem leftCorners_fixed {g : Grammar} (hg : g.Valid) :
    g.leftCornerRound g.leftCorners = g.leftCorners := by
  apply settle_fixed (P := g.CornersSound) g.leftCornerRound_grows (fun _ h => h.round hg)
    (fun _ h => h.bounded.total_le) g.cornersSound_start
  rw [List.length_range]
  omega

-- The left corners of a non-terminal are what its rules can start with, directly or not.
theorem mem_leftCorners {g : Grammar} (hg : g.Valid) {m n : Nat} (hm : m < g.nonterminals) :
    n ∈ g.leftCorners.getD m [] ↔ g.LeftReaches m n := by
  have hsound := leftCorners_sound hg
  refine ⟨hsound.reaches m n, fun h => ?_⟩
  have hfixed := leftCorners_fixed hg
  rw [leftCornerRound_eq] at hfixed
  have habsorbed := fixed_of_foldl_rules absorbCorner_grows hfixed
  induction h using Relation.ReflTransGen.head_induction_on with
  | refl => exact hsound.self n hm
  | @head k l hstep hreach ih =>
      obtain ⟨rule, hrule, rest, hleft, hright⟩ := hstep
      have hl : l < g.nonterminals := hg.nonterminal_lt hrule (by simp [hright])
      have hsame := habsorbed rule hrule
      simp only [absorbCorner, hright] at hsame
      have hsubset := Sets.subset_of_modify_eq (by rw [hsound.bounded.size_eq, hleft]; exact hm) hsame
      rw [hleft] at hsubset
      exact hsubset (ih hl)

end Grammar

namespace Ascending

-- Where neither of two elements comes before the other they are the same.
def Trichotomous (before : α → α → Bool) : Prop :=
  ∀ a b, before a b = false → before b a = false → a = b

theorem mem_insertBy {before : α → α → Bool} (h : Trichotomous before) {a b : α} {s : List α} :
    a ∈ insertBy before b s ↔ a = b ∨ a ∈ s := by
  induction s with
  | nil => simp [insertBy]
  | cons c rest ih =>
      simp only [insertBy]
      split
      · simp
      · split
        · simp only [List.mem_cons, ih]
          constructor
          · rintro (ha | ha | ha) <;> simp [ha]
          · rintro (ha | ha | ha) <;> simp [ha]
        · rename_i hbc hcb
          have : b = c := h b c (by simpa using hbc) (by simpa using hcb)
          simp [this]

theorem mem_ofListBy {before : α → α → Bool} (h : Trichotomous before) {a : α} {xs : List α} :
    a ∈ ofListBy before xs ↔ a ∈ xs := by
  have hfold : ∀ s : List α, a ∈ xs.foldl (fun s b => insertBy before b s) s ↔ a ∈ s ∨ a ∈ xs := by
    induction xs with
    | nil => simp
    | cons b rest ih =>
        intro s
        rw [List.foldl_cons, ih, mem_insertBy h, List.mem_cons]
        constructor
        · rintro ((ha | ha) | ha) <;> simp [ha]
        · rintro (ha | ha | ha) <;> simp [ha]
  simpa [ofListBy] using hfold []

theorem insertBy_pairwise {before : α → α → Bool} (htri : Trichotomous before)
    (htrans : ∀ a b c, before a b = true → before b c = true → before a c = true) {a : α}
    {s : List α} (hs : s.Pairwise (before · ·)) : (insertBy before a s).Pairwise (before · ·) := by
  induction s with
  | nil => simp [insertBy]
  | cons b rest ih =>
      obtain ⟨hb, hrest⟩ := List.pairwise_cons.mp hs
      simp only [insertBy]
      split
      · rename_i hab
        refine List.pairwise_cons.mpr ⟨?_, hs⟩
        intro c hc
        rcases List.mem_cons.mp hc with rfl | hc
        · exact hab
        · exact htrans a b c hab (hb c hc)
      · split
        · rename_i hba
          refine List.pairwise_cons.mpr ⟨?_, ih hrest⟩
          intro c hc
          rcases (mem_insertBy htri).mp hc with rfl | hc
          · exact hba
          · exact hb c hc
        · exact hs

theorem ofListBy_pairwise {before : α → α → Bool} (htri : Trichotomous before)
    (htrans : ∀ a b c, before a b = true → before b c = true → before a c = true) (xs : List α) :
    (ofListBy before xs).Pairwise (before · ·) := by
  have hfold : ∀ s : List α, s.Pairwise (before · ·) →
      (xs.foldl (fun s b => insertBy before b s) s).Pairwise (before · ·) := by
    induction xs with
    | nil => exact fun s hs => hs
    | cons b rest ih => exact fun s hs => ih _ (insertBy_pairwise htri htrans hs)
  exact hfold [] List.Pairwise.nil

end Ascending

theorem Symbol.before_trichotomous : Ascending.Trichotomous Symbol.before := by
  intro a b hab hba
  cases a <;> cases b <;> simp [Symbol.before] at hab hba ⊢
  · omega
  · omega

theorem Symbol.before_trans (a b c : Symbol) (hab : a.before b = true) (hbc : b.before c = true) :
    a.before c = true := by
  cases a <;> cases b <;> cases c <;> simp [Symbol.before] at hab hbc ⊢
  · omega
  · omega

theorem Item.before_trichotomous : Ascending.Trichotomous Item.before := by
  rintro ⟨r, d⟩ ⟨r', d'⟩ h h'
  simp [Item.before] at h h' ⊢
  omega

theorem Item.before_trans (a b c : Item) (hab : a.before b = true) (hbc : b.before c = true) :
    a.before c = true := by
  simp [Item.before] at hab hbc ⊢
  omega

namespace Grammar

variable {g : Grammar}

theorem nextNonterminal?_eq_some {i : Item} {n : Nat} :
    g.nextNonterminal? i = some n ↔ g.nextSymbol? i = some (.nonterminal n) := by
  simp only [nextNonterminal?]
  split
  · rename_i m hm
    simp [hm]
  · rename_i hnot
    simp only [reduceCtorEq, false_iff]
    exact fun h => hnot n h

theorem nextSymbol?_eq_some {i : Item} {symbol : Symbol} :
    g.nextSymbol? i = some symbol ↔
      ∃ rule, g.rules[i.rule]? = some rule ∧ rule.right[i.dot]? = some symbol := by
  simp [nextSymbol?, Option.bind_eq_some_iff]

theorem mem_nextSymbols {items : List Item} {symbol : Symbol} :
    symbol ∈ g.nextSymbols items ↔ ∃ i ∈ items, g.nextSymbol? i = some symbol := by
  rw [nextSymbols, Ascending.mem_ofListBy Symbol.before_trichotomous, List.mem_filterMap]

theorem mem_successor {items : List Item} {symbol : Symbol} {i : Item} :
    i ∈ g.successor items symbol ↔
      ∃ j ∈ items, g.nextSymbol? j = some symbol ∧ i = j.advance := by
  rw [successor, Ascending.mem_ofListBy Item.before_trichotomous]
  simp [and_assoc, eq_comm]

theorem mem_completed {items : List Item} {r : Nat} :
    r ∈ g.completed items ↔ ∃ i ∈ items, g.nextSymbol? i = none ∧ i.rule = r := by
  have htri : Ascending.Trichotomous (fun a b : Nat => decide (a < b)) := by
    intro a b hab hba
    simp at hab hba
    omega
  rw [completed, Ascending.mem_ofListBy htri]
  simp [and_assoc]

-- The items of the state with the kernel.
def itemsOf (g : Grammar) (kernel : Kernel) : List Item := g.closure g.leftCorners kernel

private theorem mem_heads {corners : Sets} {kernel : Kernel} {n : Nat} (s : List Nat) :
    n ∈ kernel.foldl (fun s i =>
      match g.nextNonterminal? i with
      | some m => Ascending.union s (corners.getD m [])
      | none => s) s ↔
    n ∈ s ∨ ∃ i ∈ kernel, ∃ m, g.nextNonterminal? i = some m ∧ n ∈ corners.getD m [] := by
  induction kernel generalizing s with
  | nil => simp
  | cons i rest ih =>
      rw [List.foldl_cons, ih]
      cases hi : g.nextNonterminal? i with
      | none => simp [hi]
      | some m => simp [hi, Ascending.mem_union, or_assoc]

theorem mem_closure {corners : Sets} {kernel : Kernel} {i : Item} :
    i ∈ g.closure corners kernel ↔ i ∈ kernel ∨ i.dot = 0 ∧ ∃ rule, g.rules[i.rule]? = some rule ∧
      ∃ j ∈ kernel, ∃ m, g.nextNonterminal? j = some m ∧ rule.left ∈ corners.getD m [] := by
  rcases i with ⟨r, d⟩
  simp only [closure, List.mem_append, List.mem_filterMap, List.mem_range]
  constructor
  · rintro (h | ⟨q, hq, h⟩)
    · exact .inl h
    · right
      split at h
      · rename_i rule hrule
        split at h
        · rename_i hheads
          cases h
          have hhead := List.contains_iff_mem.mp (Bool.and_eq_true_iff.mp hheads).1
          exact ⟨rfl, rule, hrule, ((mem_heads []).mp hhead).resolve_left List.not_mem_nil⟩
        · cases h
      · cases h
  · rintro (h | ⟨hd, rule, hrule, hreach⟩)
    · exact .inl h
    · change d = 0 at hd
      change g.rules[r]? = some rule at hrule
      subst hd
      by_cases hmem : (⟨r, 0⟩ : Item) ∈ kernel
      · exact .inl hmem
      · right
        have hr : r < g.rules.size := (Array.getElem?_eq_some_iff.mp hrule).1
        refine ⟨r, hr, ?_⟩
        simp only [hrule]
        have hhead := List.contains_iff_mem.mpr ((mem_heads []).mpr (.inr hreach))
        exact if_pos (Bool.and_eq_true_iff.mpr ⟨hhead, by simpa using hmem⟩)

theorem subset_itemsOf {kernel : Kernel} {i : Item} (h : i ∈ kernel) : i ∈ g.itemsOf kernel :=
  mem_closure.mpr (.inl h)

theorem mem_itemsOf (hg : g.Valid) {kernel : Kernel} {i : Item} :
    i ∈ g.itemsOf kernel ↔ i ∈ kernel ∨ i.dot = 0 ∧ ∃ rule, g.rules[i.rule]? = some rule ∧
      ∃ j ∈ kernel, ∃ m, g.nextSymbol? j = some (.nonterminal m) ∧
        g.LeftReaches m rule.left := by
  rw [itemsOf, mem_closure]
  refine or_congr_right (and_congr_right fun _ => ?_)
  refine exists_congr fun rule => and_congr_right fun _ => ?_
  refine exists_congr fun j => and_congr_right fun _ => ?_
  refine exists_congr fun m => ?_
  rw [nextNonterminal?_eq_some]
  refine and_congr_right fun hm => mem_leftCorners hg ?_
  obtain ⟨other, hother, hdot⟩ := nextSymbol?_eq_some.mp hm
  exact hg.nonterminal_lt (Array.mem_of_getElem? hother) (List.mem_of_getElem? hdot)

-- Where a non-terminal comes next, all its rules can begin.
theorem itemsOf_closed (hg : g.Valid) {kernel : Kernel} {i : Item} (hi : i ∈ g.itemsOf kernel)
    {r : Nat} {rule : Rule} (hrule : g.rules[r]? = some rule)
    (hnext : g.nextSymbol? i = some (.nonterminal rule.left)) :
    (⟨r, 0⟩ : Item) ∈ g.itemsOf kernel := by
  rw [mem_itemsOf hg]
  refine .inr ⟨rfl, rule, hrule, ?_⟩
  rcases (mem_itemsOf hg).mp hi with hkernel | ⟨hdot, outer, houter, j, hj, m, hm, hreach⟩
  · exact ⟨i, hkernel, rule.left, hnext, .refl⟩
  · obtain ⟨same, hsame, hhead⟩ := nextSymbol?_eq_some.mp hnext
    rw [houter] at hsame
    cases hsame
    rw [hdot] at hhead
    refine ⟨j, hj, m, hm, hreach.tail ⟨outer, Array.mem_of_getElem? houter, ?_⟩⟩
    cases hright : outer.right with
    | nil => simp [hright] at hhead
    | cons symbol rest =>
        rw [hright] at hhead
        cases hhead
        exact ⟨rest, rfl, rfl⟩

-- A rule begins in a state only where its left side comes next, the kernel apart.
theorem itemsOf_backed (hg : g.Valid) {kernel : Kernel} {r : Nat} {rule : Rule}
    (hrule : g.rules[r]? = some rule) (h : (⟨r, 0⟩ : Item) ∈ g.itemsOf kernel) :
    (⟨r, 0⟩ : Item) ∈ kernel ∨
      ∃ i ∈ g.itemsOf kernel, g.nextSymbol? i = some (.nonterminal rule.left) := by
  rcases (mem_itemsOf hg).mp h with hkernel | ⟨-, same, hsame, j, hj, m, hm, hreach⟩
  · exact .inl hkernel
  · right
    rw [hrule] at hsame
    cases hsame
    rcases Relation.ReflTransGen.cases_tail hreach with heq | ⟨k, hbefore, outer, houter, rest, hk, hright⟩
    · exact ⟨j, subset_itemsOf hj, heq ▸ hm⟩
    · obtain ⟨q, hq⟩ := Array.mem_iff_getElem?.mp houter
      refine ⟨⟨q, 0⟩, ?_, ?_⟩
      · exact (mem_itemsOf hg).mpr (.inr ⟨rfl, outer, hq, j, hj, m, hm, hk ▸ hbefore⟩)
      · exact nextSymbol?_eq_some.mpr ⟨outer, hq, by simp [hright]⟩

end Grammar

end Stencil
