import Mathlib.Data.List.Sort
import Mathlib.Data.List.Sublists
import Stencil.Proofs.Grammar.LeftCorner

namespace Stencil

namespace Grammar

-- The dot stands inside the rule or at one of its ends.
def IsItem (g : Grammar) (i : Item) : Prop :=
  ∃ rule, g.rules[i.rule]? = some rule ∧ i.dot ≤ rule.right.length

def IsKernel (g : Grammar) (kernel : Kernel) : Prop :=
  kernel.Pairwise (Item.before · ·) ∧ ∀ i ∈ kernel, g.IsItem i

-- The items of one rule.
def itemsOfRule (g : Grammar) (r : Nat) : List Item :=
  match g.rules[r]? with
  | some rule => (List.range (rule.right.length + 1)).map (⟨r, ·⟩)
  | none => []

def allItems (g : Grammar) : List Item := (List.range g.rules.size).flatMap g.itemsOfRule

variable {g : Grammar}

theorem mem_itemsOfRule {r : Nat} {i : Item} : i ∈ g.itemsOfRule r ↔ i.rule = r ∧ g.IsItem i := by
  rcases i with ⟨q, d⟩
  simp only [itemsOfRule, IsItem]
  cases hr : g.rules[r]? with
  | none =>
      simp only [List.not_mem_nil, false_iff, not_and, not_exists]
      rintro rfl rule hrule
      simp [hr] at hrule
  | some rule =>
      simp only [List.mem_map, List.mem_range, Item.mk.injEq, exists_eq_right_right]
      constructor
      · rintro ⟨hd, rfl⟩
        exact ⟨rfl, rule, hr, by omega⟩
      · rintro ⟨rfl, other, hother, hd⟩
        rw [hr] at hother
        cases hother
        exact ⟨by omega, rfl⟩

theorem mem_allItems {i : Item} (h : g.IsItem i) : i ∈ g.allItems := by
  have hlt : i.rule < g.rules.size := by
    obtain ⟨rule, hrule, -⟩ := h
    exact (Array.getElem?_eq_some_iff.mp hrule).1
  exact List.mem_flatMap.mpr ⟨i.rule, List.mem_range.mpr hlt, mem_itemsOfRule.mpr ⟨rfl, h⟩⟩

theorem allItems_pairwise (g : Grammar) : g.allItems.Pairwise (Item.before · ·) := by
  refine List.pairwise_flatMap.mpr ⟨?_, ?_⟩
  · intro r _
    simp only [itemsOfRule]
    split
    · refine List.pairwise_map.mpr (List.pairwise_lt_range.imp ?_)
      intro d e hde
      simpa [Item.before] using hde
    · exact List.Pairwise.nil
  · refine List.pairwise_lt_range.imp ?_
    intro r q hrq i hi j hj
    have hi := (mem_itemsOfRule.mp hi).1
    have hj := (mem_itemsOfRule.mp hj).1
    simp [Item.before, hi, hj, hrq]

theorem length_allItems (g : Grammar) : g.allItems.length = g.itemCount := by
  have hcount : ∀ (rules : List Rule) (n : Nat),
      rules.foldl (fun n rule => n + rule.right.length + 1) n =
        n + (rules.map fun rule => rule.right.length + 1).sum := by
    intro rules
    induction rules with
    | nil => simp
    | cons rule rest ih =>
        intro n
        simp only [List.foldl_cons, ih, List.map_cons, List.sum_cons]
        omega
  have hlengths : (List.range g.rules.size).map (fun r => (g.itemsOfRule r).length) =
      g.rules.toList.map fun rule => rule.right.length + 1 := by
    refine List.ext_getElem (by simp) ?_
    intro r hr hr'
    have hlt : r < g.rules.size := by simpa using hr
    simp [itemsOfRule, hlt]
  rw [allItems, List.length_flatMap, hlengths, itemCount, ← Array.foldl_toList, hcount, Nat.zero_add]

instance : Std.Antisymm (fun i j : Item => i.before j = true) where
  antisymm i j hij hji := by
    have hirrefl := Item.before_trans i j i hij hji
    simp [Item.before] at hirrefl

-- Kernels are ascending, so each of them is got by leaving out some of all items.
theorem IsKernel.mem_sublists {kernel : Kernel} (h : g.IsKernel kernel) :
    kernel ∈ g.allItems.sublists := by
  have hnodup : kernel.Nodup := by
    refine h.1.imp ?_
    rintro i j hij rfl
    simp [Item.before] at hij
  have hsubperm := List.subperm_of_subset hnodup (fun i hi => mem_allItems (h.2 i hi))
  exact List.mem_sublists.mpr
    (List.sublist_of_subperm_of_pairwise hsubperm h.1 g.allItems_pairwise)

theorem successor_isKernel {items : List Item} (symbol : Symbol) :
    g.IsKernel (g.successor items symbol) := by
  refine ⟨Ascending.ofListBy_pairwise Item.before_trichotomous Item.before_trans _, ?_⟩
  intro i hi
  obtain ⟨j, -, hj, rfl⟩ := mem_successor.mp hi
  obtain ⟨rule, hrule, hdot⟩ := nextSymbol?_eq_some.mp hj
  exact ⟨rule, hrule, (List.getElem?_eq_some_iff.mp hdot).1⟩

theorem dot_pos_of_mem_successor {items : List Item} {symbol : Symbol} {i : Item}
    (h : i ∈ g.successor items symbol) : 0 < i.dot := by
  obtain ⟨j, -, -, rfl⟩ := mem_successor.mp h
  exact Nat.succ_pos _

end Grammar

namespace Automaton

variable {g : Grammar}

-- The later automaton knows all that the earlier one knows.
structure Extends (a b : Automaton) : Prop where
  infos_eq : b.infos = a.infos
  kernel : ∀ {q : Nat} {k : Kernel}, a.kernels[q]? = some k → b.kernels[q]? = some k

theorem Extends.trans {a b c : Automaton} (hab : Extends a b) (hbc : Extends b c) : Extends a c :=
  ⟨hbc.infos_eq.trans hab.infos_eq, fun h => hbc.kernel (hab.kernel h)⟩

-- What is known of a state is what its items say.
structure Describes (g : Grammar) (kernels : Array Kernel) (kernel : Kernel) (info : StateInfo) :
    Prop where
  completed : info.completed = g.completed (g.itemsOf kernel)
  symbols : info.edges.map Prod.fst = g.nextSymbols (g.itemsOf kernel)
  target : ∀ edge ∈ info.edges,
    kernels[edge.2]? = some (g.successor (g.itemsOf kernel) edge.1)

-- What holds all the way while states are worked out.
structure Explored (g : Grammar) (a : Automaton) : Prop where
  start : a.kernels[0]? = some [⟨0, 0⟩]
  nodup : a.kernels.toList.Nodup
  isKernel : ∀ k ∈ a.kernels, g.IsKernel k
  entered : ∀ {q : Nat} {k : Kernel}, a.kernels[q + 1]? = some k → ∀ i ∈ k, 0 < i.dot
  done_le : a.infos.size ≤ a.kernels.size
  describes : ∀ {q : Nat} {info : StateInfo}, a.infos[q]? = some info →
    ∃ k, a.kernels[q]? = some k ∧ Describes g a.kernels k info

theorem intern_extends (a : Automaton) (kernel : Kernel) :
    Extends a (a.intern kernel).2 ∧
      (a.intern kernel).2.kernels[(a.intern kernel).1]? = some kernel := by
  simp only [intern]
  cases hfind : a.kernels.findIdx? (· = kernel) with
  | some i =>
      obtain ⟨hlt, hi, -⟩ := Array.findIdx?_eq_some_iff_getElem.mp hfind
      exact ⟨⟨rfl, id⟩, by simpa [hlt] using hi⟩
  | none =>
      refine ⟨⟨rfl, fun {q k} hk => ?_⟩, by simp⟩
      have hlt := (Array.getElem?_eq_some_iff.mp hk).1
      rw [Array.getElem?_push_lt hlt]
      simpa [hlt] using hk

theorem Describes.extend {a b : Automaton} (h : Extends a b) {kernel : Kernel} {info : StateInfo}
    (hd : Describes g a.kernels kernel info) : Describes g b.kernels kernel info :=
  ⟨hd.completed, hd.symbols, fun edge he => h.kernel (hd.target edge he)⟩

theorem Explored.intern {a : Automaton} (h : Explored g a) {kernel : Kernel}
    (hkernel : g.IsKernel kernel) (hentered : ∀ i ∈ kernel, 0 < i.dot) :
    Explored g (a.intern kernel).2 := by
  have hextends := (intern_extends a kernel).1
  simp only [Automaton.intern] at hextends ⊢
  cases hfind : a.kernels.findIdx? (· = kernel) with
  | some i => exact h
  | none =>
      rw [hfind] at hextends
      have hnew : kernel ∉ a.kernels := by
        intro hmem
        simpa using Array.findIdx?_eq_none_iff.mp hfind kernel hmem
      refine ⟨hextends.kernel h.start, ?_, ?_, ?_, ?_, ?_⟩
      · rw [Array.toList_push, List.nodup_append]
        refine ⟨h.nodup, by simp, ?_⟩
        rintro k hk _ hmem rfl
        exact hnew (by simpa [List.mem_singleton.mp hmem] using hk)
      · intro k hk
        rcases Array.mem_push.mp hk with hk | rfl
        · exact h.isKernel k hk
        · exact hkernel
      · intro q k hk
        rw [Array.getElem?_push] at hk
        split at hk
        · cases hk
          exact hentered
        · exact h.entered hk
      · rw [Array.size_push]
        exact Nat.le_succ_of_le h.done_le
      · intro q info hinfo
        obtain ⟨k, hk, hdescribes⟩ := h.describes hinfo
        exact ⟨k, hextends.kernel hk, hdescribes.extend hextends⟩

theorem link_spec (items : List Item) (symbols : List Symbol) {a : Automaton}
    (h : Explored g a) :
    Explored g (link g items symbols a).2 ∧ Extends a (link g items symbols a).2 ∧
      (link g items symbols a).1.map Prod.fst = symbols ∧
      ∀ edge ∈ (link g items symbols a).1,
        (link g items symbols a).2.kernels[edge.2]? = some (g.successor items edge.1) := by
  induction symbols generalizing a with
  | nil => exact ⟨h, ⟨rfl, id⟩, rfl, by simp [link]⟩
  | cons symbol rest ih =>
      obtain ⟨hextends, htarget⟩ := intern_extends a (g.successor items symbol)
      obtain ⟨hexplored, hrest, hsymbols, hedges⟩ :=
        ih (h.intern (g.successor_isKernel symbol) fun i => g.dot_pos_of_mem_successor)
      simp only [link]
      refine ⟨hexplored, hextends.trans hrest, by simp [hsymbols], ?_⟩
      intro edge hedge
      rcases List.mem_cons.mp hedge with rfl | hedge
      · exact hrest.kernel htarget
      · exact hedges edge hedge

theorem Explored.next {a : Automaton} (h : Explored g a) {kernel : Kernel}
    (hkernel : a.kernels[a.infos.size]? = some kernel) :
    Explored g (exploreNext g g.leftCorners a kernel) ∧
      (exploreNext g g.leftCorners a kernel).infos.size = a.infos.size + 1 := by
  obtain ⟨hexplored, hextends, hsymbols, htargets⟩ :=
    link_spec (g.itemsOf kernel) (g.nextSymbols (g.itemsOf kernel)) h
  refine ⟨⟨hexplored.start, hexplored.nodup, hexplored.isKernel, hexplored.entered, ?_, ?_⟩, ?_⟩
  · have hlt := (Array.getElem?_eq_some_iff.mp (hextends.kernel hkernel)).1
    have hsize := congrArg Array.size hextends.infos_eq
    simp only [exploreNext, Array.size_push]
    exact Nat.succ_le_of_lt (lt_of_eq_of_lt hsize hlt)
  · intro q info hinfo
    simp only [exploreNext, Array.getElem?_push] at hinfo
    split at hinfo
    · rename_i hq
      cases hinfo
      have hdone : q = a.infos.size := by rw [hq]; exact congrArg Array.size hextends.infos_eq
      subst hdone
      exact ⟨kernel, hextends.kernel hkernel, rfl, hsymbols, htargets⟩
    · exact hexplored.describes hinfo
  · simp only [exploreNext, Array.size_push]
    exact congrArg (Array.size · + 1) hextends.infos_eq

theorem Explored.run {a : Automaton} (h : Explored g a) (fuel : Nat) :
    Explored g (explore g g.leftCorners fuel a) := by
  induction fuel generalizing a with
  | zero => exact h
  | succ fuel ih =>
      simp only [explore]
      split
      · rename_i kernel hkernel
        exact ih (h.next hkernel).1
      · exact h

theorem Explored.size_le {a : Automaton} (h : Explored g a) :
    a.kernels.size ≤ 2 ^ g.itemCount := by
  have hsubset : a.kernels.toList ⊆ g.allItems.sublists :=
    fun k hk => (h.isKernel k (by simpa using hk)).mem_sublists
  have hle := h.nodup.length_le_of_subset hsubset
  rwa [Array.length_toList, List.length_sublists, g.length_allItems] at hle

-- Each step works out one state more, and there are no more than sets of items.
theorem explore_complete {a : Automaton} (h : Explored g a) {fuel : Nat}
    (hfuel : 2 ^ g.itemCount ≤ a.infos.size + fuel) :
    (explore g g.leftCorners fuel a).infos.size = (explore g g.leftCorners fuel a).kernels.size := by
  induction fuel generalizing a with
  | zero =>
      have hle := h.done_le
      have hsize := h.size_le
      simp only [explore]
      omega
  | succ fuel ih =>
      simp only [explore]
      split
      · rename_i kernel hkernel
        obtain ⟨hnext, hsize⟩ := h.next hkernel
        exact ih hnext (by omega)
      · rename_i hnone
        have hge := Array.getElem?_eq_none_iff.mp hnone
        have hle := h.done_le
        omega

theorem explored_start {g : Grammar} (hg : g.Valid) : Explored g ⟨#[[⟨0, 0⟩]], #[]⟩ where
  start := rfl
  nodup := by simp
  isKernel := by
    intro k hk
    obtain rfl : k = [⟨0, 0⟩] := by simpa using hk
    refine ⟨by simp, ?_⟩
    intro i hi
    obtain rfl : i = ⟨0, 0⟩ := by simpa using hi
    exact ⟨_, Array.getElem?_eq_getElem hg.rules_pos, Nat.zero_le _⟩
  entered := by simp
  done_le := by simp
  describes := by simp

end Automaton

namespace Grammar

variable {g : Grammar}

theorem automaton_explored (hg : g.Valid) : Automaton.Explored g g.automaton :=
  (Automaton.explored_start hg).run _

theorem automaton_complete (hg : g.Valid) :
    g.automaton.infos.size = g.automaton.kernels.size :=
  Automaton.explore_complete (Automaton.explored_start hg) (by simp)

-- The items of a state by number.
def itemsAt (g : Grammar) (q : Nat) : List Item :=
  match g.automaton.kernels[q]? with
  | some kernel => g.itemsOf kernel
  | none => []

-- The state entered from `p` over the symbol is `q`.
def Edge (g : Grammar) (p : Nat) (symbol : Symbol) (q : Nat) : Prop :=
  ∃ info, g.automaton.infos[p]? = some info ∧ (symbol, q) ∈ info.edges

-- The start symbol stands on no right side.
def StartUnused (g : Grammar) : Prop :=
  ∀ start ∈ g.rules[0]?, ∀ rule ∈ g.rules, .nonterminal start.left ∉ rule.right

instance : Decidable g.StartUnused :=
  inferInstanceAs (Decidable (∀ start ∈ g.rules[0]?, ∀ rule ∈ g.rules,
    .nonterminal start.left ∉ rule.right))

theorem itemsAt_eq {q : Nat} {kernel : Kernel} (h : g.automaton.kernels[q]? = some kernel) :
    g.itemsAt q = g.itemsOf kernel := by
  simp [itemsAt, h]

theorem exists_kernel {q : Nat} {i : Item} (h : i ∈ g.itemsAt q) :
    ∃ kernel, g.automaton.kernels[q]? = some kernel ∧ i ∈ g.itemsOf kernel := by
  simp only [itemsAt] at h
  split at h
  · rename_i kernel hkernel
    exact ⟨kernel, hkernel, h⟩
  · simp at h

theorem isItem_of_mem (hg : g.Valid) {q : Nat} {i : Item} (h : i ∈ g.itemsAt q) : g.IsItem i := by
  obtain ⟨kernel, hkernel, hi⟩ := exists_kernel h
  rcases (mem_itemsOf hg).mp hi with hi | ⟨hdot, rule, hrule, -⟩
  · exact ((automaton_explored hg).isKernel kernel (Array.mem_of_getElem? hkernel)).2 i hi
  · exact ⟨rule, hrule, by omega⟩

theorem start_mem_itemsAt (hg : g.Valid) : (⟨0, 0⟩ : Item) ∈ g.itemsAt 0 := by
  rw [itemsAt_eq (automaton_explored hg).start]
  exact subset_itemsOf (by simp)

theorem dot_eq_zero_of_mem_start (hg : g.Valid) {i : Item} (h : i ∈ g.itemsAt 0) : i.dot = 0 := by
  rw [itemsAt_eq (automaton_explored hg).start] at h
  rcases (mem_itemsOf hg).mp h with hkernel | ⟨hdot, -⟩
  · rw [List.mem_singleton.mp hkernel]
  · exact hdot

-- Every state was worked out, so its items lead on.
theorem exists_info (hg : g.Valid) {q : Nat} {i : Item} (h : i ∈ g.itemsAt q) :
    ∃ info, g.automaton.infos[q]? = some info := by
  obtain ⟨kernel, hkernel, -⟩ := exists_kernel h
  have hlt := (Array.getElem?_eq_some_iff.mp hkernel).1
  rw [← automaton_complete hg] at hlt
  exact ⟨_, Array.getElem?_eq_getElem hlt⟩

theorem describes_of_info (hg : g.Valid) {q : Nat} {info : StateInfo}
    (h : g.automaton.infos[q]? = some info) :
    info.completed = g.completed (g.itemsAt q) ∧
      info.edges.map Prod.fst = g.nextSymbols (g.itemsAt q) ∧
      ∀ edge ∈ info.edges,
        g.automaton.kernels[edge.2]? = some (g.successor (g.itemsAt q) edge.1) := by
  obtain ⟨kernel, hkernel, hdescribes⟩ := (automaton_explored hg).describes h
  rw [itemsAt_eq hkernel]
  exact ⟨hdescribes.completed, hdescribes.symbols, hdescribes.target⟩

theorem exists_edge (hg : g.Valid) {q : Nat} {i : Item} {symbol : Symbol} (hi : i ∈ g.itemsAt q)
    (hnext : g.nextSymbol? i = some symbol) : ∃ target, g.Edge q symbol target := by
  obtain ⟨info, hinfo⟩ := exists_info hg hi
  have hmem : symbol ∈ info.edges.map Prod.fst := by
    rw [(describes_of_info hg hinfo).2.1]
    exact mem_nextSymbols.mpr ⟨i, hi, hnext⟩
  obtain ⟨⟨symbol, target⟩, hedge, rfl⟩ := List.mem_map.mp hmem
  exact ⟨target, info, hinfo, hedge⟩

theorem exists_item_of_edge (hg : g.Valid) {p q : Nat} {symbol : Symbol} (h : g.Edge p symbol q) :
    ∃ i ∈ g.itemsAt p, g.nextSymbol? i = some symbol := by
  obtain ⟨info, hinfo, hedge⟩ := h
  have hmem := List.mem_map_of_mem (f := Prod.fst) hedge
  rw [(describes_of_info hg hinfo).2.1] at hmem
  exact mem_nextSymbols.mp hmem

-- Behind an edge the dots have moved over its symbol.
theorem Edge.mem_itemsAt (hg : g.Valid) {p q : Nat} {symbol : Symbol} (h : g.Edge p symbol q)
    {r d : Nat} : (⟨r, d + 1⟩ : Item) ∈ g.itemsAt q ↔
      (⟨r, d⟩ : Item) ∈ g.itemsAt p ∧ g.nextSymbol? ⟨r, d⟩ = some symbol := by
  obtain ⟨info, hinfo, hedge⟩ := h
  rw [itemsAt_eq ((describes_of_info hg hinfo).2.2 _ hedge), mem_itemsOf hg, mem_successor]
  constructor
  · rintro (⟨⟨r', d'⟩, hj, hnext, heq⟩ | ⟨hdot, -⟩)
    · cases heq
      exact ⟨hj, hnext⟩
    · simp at hdot
  · rintro ⟨hj, hnext⟩
    exact .inl ⟨⟨r, d⟩, hj, hnext, rfl⟩

theorem Edge.target_ne_zero (hg : g.Valid) {p q : Nat} {symbol : Symbol} (h : g.Edge p symbol q) :
    q ≠ 0 := by
  rintro rfl
  obtain ⟨info, hinfo, hedge⟩ := h
  have hkernel := (describes_of_info hg hinfo).2.2 _ hedge
  rw [(automaton_explored hg).start] at hkernel
  have hmem : (⟨0, 0⟩ : Item) ∈ g.successor (g.itemsAt p) symbol := by
    rw [← Option.some.inj hkernel]
    exact List.mem_singleton.mpr rfl
  exact absurd (dot_pos_of_mem_successor hmem) (by simp)

-- Outside the kernel of the first state a rule begins where its left side comes next.
theorem itemsAt_backed (hg : g.Valid) {q r : Nat} {rule : Rule} (hrule : g.rules[r]? = some rule)
    (h : (⟨r, 0⟩ : Item) ∈ g.itemsAt q) :
    q = 0 ∧ r = 0 ∨ ∃ i ∈ g.itemsAt q, g.nextSymbol? i = some (.nonterminal rule.left) := by
  obtain ⟨kernel, hkernel, hi⟩ := exists_kernel h
  rw [itemsAt_eq hkernel]
  rcases itemsOf_backed hg hrule hi with hmem | hbacked
  · left
    cases q with
    | zero =>
        rw [(automaton_explored hg).start] at hkernel
        cases hkernel
        simpa using hmem
    | succ q => exact absurd ((automaton_explored hg).entered hkernel _ hmem) (by simp)
  · exact .inr hbacked

-- Past the first state it begins because of a symbol behind another one.
theorem itemsAt_reached (hg : g.Valid) {q r : Nat} {rule : Rule} (hrule : g.rules[r]? = some rule)
    (hq : q ≠ 0) (h : (⟨r, 0⟩ : Item) ∈ g.itemsAt q) :
    ∃ r' d m, (⟨r', d + 1⟩ : Item) ∈ g.itemsAt q ∧
      g.nextSymbol? ⟨r', d + 1⟩ = some (.nonterminal m) ∧ g.LeftReaches m rule.left := by
  obtain ⟨q, rfl⟩ := Nat.exists_eq_succ_of_ne_zero hq
  obtain ⟨kernel, hkernel, hi⟩ := exists_kernel h
  have hentered := (automaton_explored hg).entered hkernel
  rw [itemsAt_eq hkernel]
  rcases (mem_itemsOf hg).mp hi with hmem | ⟨-, same, hsame, ⟨r', d⟩, hj, m, hm, hreach⟩
  · exact absurd (hentered _ hmem) (by simp)
  · obtain ⟨d, rfl⟩ := Nat.exists_eq_succ_of_ne_zero (Nat.ne_of_gt (hentered _ hj))
    rw [hrule] at hsame
    cases hsame
    exact ⟨r', d, m, subset_itemsOf hj, hm, hreach⟩

theorem itemsAt_closed (hg : g.Valid) {q : Nat} {i : Item} (hi : i ∈ g.itemsAt q) {r : Nat}
    {rule : Rule} (hrule : g.rules[r]? = some rule)
    (hnext : g.nextSymbol? i = some (.nonterminal rule.left)) :
    (⟨r, 0⟩ : Item) ∈ g.itemsAt q := by
  obtain ⟨kernel, hkernel, hmem⟩ := exists_kernel hi
  rw [itemsAt_eq hkernel]
  exact itemsOf_closed hg hmem hrule hnext

theorem eq_zero_of_start_mem (hg : g.Valid) (hstart : g.StartUnused) {q : Nat}
    (h : (⟨0, 0⟩ : Item) ∈ g.itemsAt q) : q = 0 := by
  have hrule := Array.getElem?_eq_getElem hg.rules_pos
  rcases itemsAt_backed hg hrule h with hzero | ⟨i, hi, hnext⟩
  · exact hzero.1
  · obtain ⟨rule, hother, hdot⟩ := nextSymbol?_eq_some.mp hnext
    exact absurd (List.mem_of_getElem? hdot)
      (hstart _ hrule rule (Array.mem_of_getElem? hother))

-- A rule is complete in a state if its item there has the dot at the end.
theorem mem_completed_itemsAt (hg : g.Valid) {q r : Nat} :
    r ∈ g.completed (g.itemsAt q) ↔
      ∃ rule, g.rules[r]? = some rule ∧ (⟨r, rule.right.length⟩ : Item) ∈ g.itemsAt q := by
  rw [mem_completed]
  constructor
  · rintro ⟨⟨r', d⟩, hi, hnone, rfl⟩
    obtain ⟨rule, hrule, hdot⟩ := isItem_of_mem hg hi
    refine ⟨rule, hrule, ?_⟩
    have hge : rule.right.length ≤ d := by simpa [nextSymbol?, hrule] using hnone
    have heq : rule.right.length = d := Nat.le_antisymm hge hdot
    rw [heq]
    exact hi
  · rintro ⟨rule, hrule, hi⟩
    exact ⟨_, hi, by simp [nextSymbol?, hrule], rfl⟩

end Grammar

end Stencil
