import Stencil.Proofs.Grammar.Outline

namespace Stencil

-- Kernels are ascending, so those with the same items are equal.
theorem Item.eq_of_ascending {s t : Kernel} (hs : s.Pairwise (Item.before · ·))
    (ht : t.Pairwise (Item.before · ·)) (h : ∀ i, i ∈ s ↔ i ∈ t) : s = t := by
  have hnodup : ∀ {k : Kernel}, k.Pairwise (Item.before · ·) → k.Nodup := by
    intro k hk
    refine hk.imp ?_
    rintro i j hij rfl
    simp [Item.before] at hij
  have hperm := (List.perm_ext_iff_of_nodup (hnodup hs) (hnodup ht)).mpr h
  exact hperm.eq_of_pairwise (fun i j _ _ hij hji => Std.Antisymm.antisymm i j hij hji) hs ht

namespace Outline

open Grammar

variable {o : Outline} {g : Grammar}

theorem mem_opened (hg : g.Valid) (h : o.cornersHold g = true) {i : Item}
    {symbol : Symbol} (hi : g.nextSymbol? i = some symbol) {r : Nat} :
    r ∈ o.opened g symbol ↔ ∃ m, symbol = .nonterminal m ∧ ∃ rule, g.rules[r]? = some rule ∧
      g.LeftReaches m rule.left := by
  cases symbol with
  | terminal t => simp [opened]
  | nonterminal m =>
      obtain ⟨outer, houter, hdot⟩ := nextSymbol?_eq_some.mp hi
      have hm := hg.nonterminal_lt (Array.mem_of_getElem? houter) (List.mem_of_getElem? hdot)
      simp only [opened, List.mem_flatMap, mem_corners_iff hg h hm, mem_rulesOf]
      constructor
      · rintro ⟨n, hn, rule, hrule, rfl⟩
        exact ⟨m, rfl, rule, hrule, hn⟩
      · rintro ⟨_, ⟨⟩, rule, hrule, hreach⟩
        exact ⟨_, hreach, rule, hrule, rfl⟩

-- The items of a state, got from those of its kernel.
theorem mem_itemsOf_iff (hg : g.Valid) (h : o.cornersHold g = true) {kernel : Kernel} {i : Item} :
    i ∈ g.itemsOf kernel ↔ i ∈ kernel ∨ i.dot = 0 ∧ ∃ j ∈ kernel, ∃ symbol,
      g.nextSymbol? j = some symbol ∧ i.rule ∈ o.opened g symbol := by
  rw [mem_itemsOf hg]
  refine or_congr_right (and_congr_right fun _ => ?_)
  constructor
  · rintro ⟨rule, hrule, j, hj, m, hm, hreach⟩
    exact ⟨j, hj, _, hm, (mem_opened hg h hm).mpr ⟨m, rfl, rule, hrule, hreach⟩⟩
  · rintro ⟨j, hj, symbol, hsymbol, hopened⟩
    obtain ⟨m, rfl, rule, hrule, hreach⟩ := (mem_opened hg h hsymbol).mp hopened
    exact ⟨rule, hrule, j, hj, m, hsymbol, hreach⟩

theorem mem_moves (hg : g.Valid) (h : o.cornersHold g = true) {kernel : Kernel} {symbol : Symbol}
    {j : Item} : (symbol, j) ∈ o.moves g kernel ↔
      ∃ i ∈ g.itemsOf kernel, g.nextSymbol? i = some symbol ∧ j = i.advance := by
  simp only [moves, List.mem_flatMap]
  constructor
  · rintro ⟨i, hi, hmove⟩
    cases hnext : g.nextSymbol? i with
    | none => simp [hnext] at hmove
    | some first =>
        simp only [hnext, List.mem_cons, Prod.mk.injEq, List.mem_filterMap,
          Option.map_eq_some_iff] at hmove
        rcases hmove with ⟨rfl, rfl⟩ | ⟨r, hr, next, hhead, rfl, rfl⟩
        · exact ⟨i, subset_itemsOf hi, hnext, rfl⟩
        · have hmem : ⟨r, 0⟩ ∈ g.itemsOf kernel :=
            (mem_itemsOf_iff hg h).mpr (.inr ⟨rfl, i, hi, first, hnext, hr⟩)
          exact ⟨⟨r, 0⟩, hmem, hhead, rfl⟩
  · rintro ⟨i, hi, hnext, rfl⟩
    rcases (mem_itemsOf_iff hg h).mp hi with hi | ⟨hdot, j, hj, first, hfirst, hopened⟩
    · exact ⟨i, hi, by simp [hnext]⟩
    · obtain ⟨r, d⟩ := i
      obtain rfl : d = 0 := hdot
      refine ⟨j, hj, ?_⟩
      simp only [hfirst, List.mem_cons, List.mem_filterMap, Option.map_eq_some_iff]
      exact .inr ⟨r, hopened, symbol, hnext, rfl⟩

theorem mem_ended (hg : g.Valid) (h : o.cornersHold g = true) {kernel : Kernel} {i : Item}
    (hi : i ∈ g.itemsOf kernel) (hnone : g.nextSymbol? i = none) : i.rule ∈ o.ended g kernel := by
  rcases (mem_itemsOf_iff hg h).mp hi with hi | ⟨hdot, j, hj, first, hfirst, hopened⟩
  · exact List.mem_flatMap.mpr ⟨i, hi, by simp [hnone]⟩
  · refine List.mem_flatMap.mpr ⟨j, hj, ?_⟩
    obtain ⟨r, d⟩ := i
    obtain rfl : d = 0 := hdot
    simp only [hfirst, List.mem_filter]
    exact ⟨hopened, by simp [hnone]⟩

theorem successor_eq (hg : g.Valid) (h : o.cornersHold g = true) (kernel : Kernel)
    (symbol : Symbol) :
    g.successor (g.itemsOf kernel) symbol = targetOver symbol (o.moves g kernel) := by
  refine Item.eq_of_ascending (successor_isKernel symbol).1
    (Ascending.ofListBy_pairwise Item.before_trichotomous Item.before_trans _) fun j => ?_
  rw [mem_successor, targetOver, Ascending.mem_ofListBy Item.before_trichotomous]
  simp only [List.mem_map, List.mem_filter, sameSymbol_iff, Prod.exists, exists_eq_right]
  rw [← mem_moves hg h]
  constructor
  · exact fun hmove => ⟨symbol, hmove, rfl⟩
  · rintro ⟨_, hmove, rfl⟩
    exact hmove

theorem mem_symbolsOf {seen : List Symbol} {moves : List (Symbol × Item)} {symbol : Symbol}
    (h : symbol ∈ seen ∨ ∃ j, (symbol, j) ∈ moves) : symbol ∈ symbolsOf seen moves := by
  induction moves generalizing seen with
  | nil => simpa [symbolsOf] using h
  | cons move rest ih =>
      refine ih ?_
      rcases h with h | ⟨j, hj⟩
      · left
        cases seen.any (sameSymbol move.1) with
        | true => exact h
        | false => exact List.mem_cons_of_mem _ h
      · rcases List.mem_cons.mp hj with rfl | hj
        · left
          cases hseen : seen.any (sameSymbol symbol) with
          | true =>
              obtain ⟨other, hother, hsame⟩ := List.any_eq_true.mp hseen
              rw [sameSymbol_iff.mp hsame]
              exact hother
          | false => exact List.mem_cons_self
        · exact .inr ⟨j, hj⟩

namespace Holds

variable (h : o.Holds g)

include h

theorem gvalid : g.Valid := valid_of_validate h.valid

-- Over every symbol a state of the outline leads to another one.
theorem successor_mem {kernel : Kernel} (hkernel : kernel ∈ o.kernels) {symbol : Symbol}
    (hsymbol : symbol ∈ g.nextSymbols (g.itemsOf kernel)) :
    g.successor (g.itemsOf kernel) symbol ∈ o.kernels := by
  have hchecked := List.all_eq_true.mp h.states kernel hkernel
  have hinside := (Bool.and_eq_true_iff.mp hchecked).1
  obtain ⟨i, hi, hnext⟩ := mem_nextSymbols.mp hsymbol
  have hmove := (mem_moves h.gvalid h.corners).mpr ⟨i, hi, hnext, rfl⟩
  have hany := List.all_eq_true.mp hinside symbol (mem_symbolsOf (.inr ⟨_, hmove⟩))
  obtain ⟨target, htarget, hsame⟩ := List.any_eq_true.mp hany
  rw [successor_eq h.gvalid h.corners, eq_of_sameKernel hsame]
  exact htarget

end Holds

end Outline

namespace Automaton

-- All states met so far are among those of the outline.
def Inside (o : Outline) (a : Automaton) : Prop := ∀ kernel ∈ a.kernels, kernel ∈ o.kernels

variable {o : Outline} {g : Grammar} {a : Automaton}

theorem Inside.intern (ha : a.Inside o) {kernel : Kernel} (hkernel : kernel ∈ o.kernels) :
    (a.intern kernel).2.Inside o := by
  unfold Automaton.intern
  split
  · exact ha
  · intro other hother
    rcases Array.mem_push.mp hother with hother | rfl
    · exact ha other hother
    · exact hkernel

theorem Inside.link (ha : a.Inside o) {items : List Item} {symbols : List Symbol}
    (hsymbols : ∀ symbol ∈ symbols, g.successor items symbol ∈ o.kernels) :
    (link g items symbols a).2.Inside o := by
  induction symbols generalizing a with
  | nil => exact ha
  | cons symbol rest ih =>
      obtain ⟨hsymbol, hrest⟩ := List.forall_mem_cons.mp hsymbols
      exact ih (ha.intern hsymbol) hrest

theorem Inside.explore (h : o.Holds g) (ha : a.Inside o) (fuel : Nat) :
    (explore g g.leftCorners fuel a).Inside o := by
  induction fuel generalizing a with
  | zero => exact ha
  | succ fuel ih =>
      simp only [Automaton.explore]
      split
      · rename_i kernel hkernel
        have hmem := ha kernel (Array.mem_of_getElem? hkernel)
        have hlinked : (Automaton.link g (g.itemsOf kernel) (g.nextSymbols (g.itemsOf kernel))
            a).2.Inside o :=
          ha.link fun symbol hsymbol => h.successor_mem hmem hsymbol
        exact ih hlinked
      · exact ha

end Automaton

namespace ActionRow

-- Reductions for terminals that are free and different meet nothing.
theorem foldl_propose_nil {state : Nat} {more : List (Nat × Nat)} {acc : ActionRow × List Conflict}
    (hnil : acc.2 = []) (hfree : ∀ p ∈ more, acc.1.lookup p.2 = none)
    (hnodup : (more.map Prod.snd).Nodup) :
    (more.foldl (fun acc p => propose state p.1 acc p.2) acc).2 = [] := by
  induction more generalizing acc with
  | nil => exact hnil
  | cons p rest ih =>
      obtain ⟨hp, hrest⟩ := List.forall_mem_cons.mp hfree
      obtain ⟨hnew, hnodup⟩ := List.nodup_cons.mp hnodup
      refine ih ?_ ?_ hnodup
      · simp only [propose, hp]
        exact hnil
      · intro other hother
        rw [lookup_propose, if_neg ?_]
        · exact hrest other hother
        · intro heq
          exact hnew (heq ▸ List.mem_map_of_mem hother)

end ActionRow

theorem Grammar.completed_ascending (g : Grammar) (items : List Item) :
    (g.completed items).Pairwise (· < ·) := by
  have hascending : (g.completed items).Pairwise fun a b : Nat => decide (a < b) = true := by
    refine Ascending.ofListBy_pairwise ?_ ?_ _
    · intro a b hab hba
      simp only [decide_eq_false_iff_not] at hab hba
      omega
    · intro a b c hab hbc
      simp only [decide_eq_true_eq] at hab hbc ⊢
      omega
  exact hascending.imp of_decide_eq_true

theorem Grammar.followOf_nodup {g : Grammar} (hg : g.Valid) (n : Nat) : (g.followOf n).Nodup := by
  rw [followOf, Array.getD_eq_getD_getElem?]
  cases hset : (g.followSets g.firstSets)[n]? with
  | none => exact List.nodup_nil
  | some s =>
      have hascending := (followSets_bounded hg).ascending s (Array.mem_of_getElem? hset)
      exact hascending.imp Nat.ne_of_lt

namespace Outline.Holds

open Grammar

variable {o : Outline} {g : Grammar} (h : o.Holds g)

include h

theorem kernels_subset : ∀ kernel ∈ g.automaton.kernels, kernel ∈ o.kernels := by
  refine Automaton.Inside.explore h ?_ _
  intro kernel hkernel
  obtain rfl : kernel = [⟨0, 0⟩] := by simpa using hkernel
  exact h.start

theorem states_le : g.automaton.kernels.size ≤ o.kernels.length := by
  have hsubset : g.automaton.kernels.toList ⊆ o.kernels :=
    fun kernel hkernel => h.kernels_subset kernel (by simpa using hkernel)
  have hnodup := (automaton_explored h.gvalid).nodup
  simpa using hnodup.length_le_of_subset hsubset

-- A state has read at most one rule to its end, and then it shifts nothing that can follow it.
theorem completed_cases {q : Nat} {info : StateInfo} (hinfo : g.automaton.infos[q]? = some info) :
    info.completed = [] ∨ ∃ r, info.completed = [r] ∧
      ∀ t ∈ g.followOf (((g.rules[r]?).map Rule.left).getD 0), ∀ target,
        (.terminal t, target) ∉ info.edges := by
  have hg := h.gvalid
  obtain ⟨kernel, hkernel, hdescribes⟩ := (automaton_explored hg).describes hinfo
  have hmem := h.kernels_subset kernel (Array.mem_of_getElem? hkernel)
  have hquiet := (Bool.and_eq_true_iff.mp (List.all_eq_true.mp h.states kernel hmem)).2
  have hended : ∀ r ∈ info.completed, r ∈ o.ended g kernel := by
    intro r hr
    rw [hdescribes.completed] at hr
    obtain ⟨i, hi, hnone, rfl⟩ := mem_completed.mp hr
    exact mem_ended hg h.corners hi hnone
  unfold isQuiet at hquiet
  split at hquiet
  · rename_i hnone
    exact .inl (List.eq_nil_iff_forall_not_mem.mpr fun r hr => by simpa [hnone] using hended r hr)
  · rename_i r rest hsome
    obtain ⟨hsingle, hfollow⟩ := Bool.and_eq_true_iff.mp hquiet
    have honly : ∀ other ∈ info.completed, other = r := by
      intro other hother
      have hmem := hended other hother
      rw [hsome] at hmem
      rcases List.mem_cons.mp hmem with rfl | hmem
      · rfl
      · exact (Nat.eq_of_beq_eq_true (List.all_eq_true.mp hsingle other hmem)).symm
    have hnodup : info.completed.Nodup := by
      rw [hdescribes.completed]
      exact (g.completed_ascending _).imp Nat.ne_of_lt
    cases hcompleted : info.completed with
    | nil => exact .inl rfl
    | cons first tail =>
        rw [hcompleted] at honly hnodup
        obtain ⟨hnew, -⟩ := List.nodup_cons.mp hnodup
        obtain ⟨rfl, htail⟩ := List.forall_mem_cons.mp honly
        have hempty : tail = [] := List.eq_nil_iff_forall_not_mem.mpr fun other hother =>
          hnew (htail other hother ▸ hother)
        refine .inr ⟨first, by rw [hempty], fun t ht target hedge => ?_⟩
        have hsymbol := List.mem_map_of_mem (f := Prod.fst) hedge
        rw [hdescribes.symbols] at hsymbol
        obtain ⟨i, hi, hnext⟩ := mem_nextSymbols.mp hsymbol
        have hmove := (mem_moves hg h.corners).mpr ⟨i, hi, hnext, rfl⟩
        have hbound := followOf_subset h.first h.follow _ ht
        have hquietAt := List.all_eq_true.mp (List.all_eq_true.mp hfollow t hbound) _ hmove
        simp [sameSymbol] at hquietAt

theorem conflictFree : g.ConflictFree := by
  intro q info hinfo
  have hg := h.gvalid
  rw [ActionRow.ofState_eq]
  rcases h.completed_cases hinfo with hnone | ⟨r, hone, hunshifted⟩
  · rw [ActionRow.reductionsOf, hnone]
    rfl
  have hreductions : ActionRow.reductionsOf g (g.followSets g.firstSets) info =
      (g.followOf (((g.rules[r]?).map Rule.left).getD 0)).map (r, ·) := by
    simp [ActionRow.reductionsOf, hone, followOf]
  rw [hreductions]
  refine ActionRow.foldl_propose_nil rfl ?_ ?_
  · intro p hp
    obtain ⟨t, ht, rfl⟩ := List.mem_map.mp hp
    cases hlookup : (ActionRow.shiftsOf info).lookup t with
    | none => rfl
    | some action =>
        obtain ⟨target, -, hedge⟩ := ActionRow.mem_shiftsOf.mp
          ((lookup_eq_some_of_ascending (shiftsOf_ascending hg hinfo)).mp hlookup)
        exact absurd hedge (hunshifted t ht target)
  · -- What follows the left side of the rule is listed once.
    simpa [Function.comp_def] using followOf_nodup hg _

end Outline.Holds

namespace Grammar

theorem mapM_ok {f : α → Except ε β} {xs : List α} (h : ∀ x ∈ xs, ∃ y, f x = .ok y) :
    ∃ ys, xs.mapM f = .ok ys := by
  induction xs with
  | nil => exact ⟨[], rfl⟩
  | cons x xs ih =>
      obtain ⟨⟨y, hy⟩, hrest⟩ := List.forall_mem_cons.mp h
      obtain ⟨ys, hys⟩ := ih hrest
      refine ⟨y :: ys, ?_⟩
      rw [List.mapM_cons, hy, hys]
      rfl

theorem encodeNat_ok {n : Nat} (h : n ≤ limit) : encodeNat n = .ok (Int16.ofInt n) := if_pos h

theorem encodeAction_ok {action : Action} (h : action.Fits) : ∃ v, encodeAction action = .ok v := by
  cases action with
  | shift state => exact ⟨_, encodeNat_ok h⟩
  | reduce production =>
      refine ⟨-Int16.ofInt (production + 1 : Nat), ?_⟩
      rw [encodeAction, encodeNat_ok h]
      rfl

theorem actionPairs_ok {row : ActionRow} (h : ∀ entry ∈ row, entry.1 ≤ limit ∧ entry.2.Fits) :
    ∃ pairs, actionPairs row = .ok pairs := by
  refine mapM_ok fun entry hentry => ?_
  obtain ⟨hkey, hfits⟩ := h entry hentry
  obtain ⟨v, hv⟩ := encodeAction_ok hfits
  exact ⟨(Int16.ofInt entry.1, v), by simp only [hv, encodeNat_ok hkey]; rfl⟩

theorem gotoPairs_ok {info : StateInfo}
    (h : ∀ entry ∈ gotosOf info, entry.1 ≤ limit ∧ entry.2 ≤ limit) :
    ∃ pairs, gotoPairs info = .ok pairs := by
  refine mapM_ok fun entry hentry => ?_
  obtain ⟨hkey, hvalue⟩ := h entry hentry
  exact ⟨(Int16.ofInt entry.1, Int16.ofInt entry.2), by
    simp only [encodeNat_ok hkey, encodeNat_ok hvalue]; rfl⟩

theorem productionRow_ok {rule : Rule} (hleft : rule.left ≤ limit)
    (hright : rule.right.length ≤ limit) : ∃ row, productionRow rule = .ok row :=
  ⟨#[Int16.ofInt rule.left, Int16.ofInt rule.right.length], by
    simp only [productionRow, encodeNat_ok hleft, encodeNat_ok hright]; rfl⟩

theorem stateRows_ok {g : Grammar} {follow : FollowSets} {infos : List StateInfo} {state : Nat}
    (h : ∀ {i : Nat} {info : StateInfo}, infos[i]? = some info →
      (∃ pairs, actionPairs (ActionRow.ofState g follow (state + i) info).1 = .ok pairs) ∧
        ∃ pairs, gotoPairs info = .ok pairs) :
    ∃ rows conflicts, g.stateRows follow state infos = .ok (rows, conflicts) := by
  induction infos generalizing state with
  | nil => exact ⟨[], [], rfl⟩
  | cons info rest ih =>
      obtain ⟨⟨actions, hactions⟩, gotos, hgotos⟩ := h (i := 0) rfl
      rw [Nat.add_zero] at hactions
      obtain ⟨rows, conflicts, hrows⟩ :
          ∃ rows conflicts, g.stateRows follow (state + 1) rest = .ok (rows, conflicts) := by
        refine ih fun {i info} hinfo => ?_
        have hlater := h (i := i + 1) hinfo
        rwa [← Nat.add_assoc, Nat.add_right_comm] at hlater
      refine ⟨(Table.packRow actions 0, Table.packRow gotos (-1)) :: rows,
        (ActionRow.ofState g follow state info).2 ++ conflicts, ?_⟩
      rw [stateRows]
      simp only [hactions, hgotos, hrows]
      rfl

end Grammar

namespace Outline.Holds

open Grammar

variable {o : Outline} {g : Grammar} (h : o.Holds g)

include h

theorem symbol_lt (hg : g.Valid) {q : Nat} {info : StateInfo}
    (hinfo : g.automaton.infos[q]? = some info) {symbol : Symbol} {target : Nat}
    (hedge : (symbol, target) ∈ info.edges) :
    g.knows symbol = true ∧ target < limit := by
  obtain ⟨i, -, hnext⟩ := exists_item_of_edge hg ⟨info, hinfo, hedge⟩
  obtain ⟨rule, hrule, hdot⟩ := nextSymbol?_eq_some.mp hnext
  refine ⟨hg.knows rule (Array.mem_of_getElem? hrule) symbol (List.mem_of_getElem? hdot), ?_⟩
  have htarget := (describes_of_info hg hinfo).2.2 _ hedge
  have hlt := (Array.getElem?_eq_some_iff.mp htarget).1
  have hle := h.states_le
  have hfits := h.fits.1
  simp only at hlt
  omega

theorem fits_of_mem (hg : g.Valid) {q : Nat} {info : StateInfo}
    (hinfo : g.automaton.infos[q]? = some info) {t : Nat} {action : Action}
    (hmem : (t, action) ∈ (ActionRow.ofState g (g.followSets g.firstSets) q info).1) :
    t ≤ limit ∧ action.Fits := by
  have hholds := ofState_holds hg hinfo
  have hlookup := (lookup_eq_some_of_ascending hholds.ascending).mpr hmem
  have hfits := h.fits
  cases action with
  | shift target =>
      have hshift := hholds.shift_iff.mp hlookup
      obtain ⟨q', heq, hedge⟩ := ActionRow.mem_shiftsOf.mp
        ((lookup_eq_some_of_ascending (shiftsOf_ascending hg hinfo)).mp hshift)
      cases heq
      obtain ⟨hknown, htarget⟩ := h.symbol_lt hg hinfo hedge
      have hlt : t < g.terminals := of_decide_eq_true hknown
      exact ⟨by omega, Nat.succ_le_of_lt htarget⟩
  | reduce r =>
      obtain ⟨rule, hrule, -, ht⟩ := (mem_reductionsOf hg hinfo).mp (hholds.reduce_mem hlookup)
      have hr := (Array.getElem?_eq_some_iff.mp hrule).1
      have hdomain := (followSets_bounded hg).getD_subset _ ht
      refine ⟨?_, ?_⟩
      · rcases List.mem_cons.mp hdomain with rfl | hlt
        · omega
        · have hlt := List.mem_range.mp hlt
          omega
      · change r + 1 ≤ limit
        omega

-- A grammar with an outline that holds has tables, and no state needs a conflict settled.
theorem compile_ok : ∃ tables, g.compile = .ok (tables, []) := by
  have hg := h.gvalid
  have hfits := h.fits
  obtain ⟨rows, conflicts, hrows⟩ : ∃ rows conflicts,
      g.stateRows (g.followSets g.firstSets) 0 g.automaton.infos.toList =
        .ok (rows, conflicts) := by
    refine stateRows_ok fun {q info} hinfo => ?_
    rw [Array.getElem?_toList] at hinfo
    rw [Nat.zero_add]
    refine ⟨actionPairs_ok fun entry hentry => h.fits_of_mem hg hinfo hentry, ?_⟩
    refine gotoPairs_ok fun entry hentry => ?_
    obtain ⟨hknown, htarget⟩ := h.symbol_lt hg hinfo (mem_gotosOf.mp hentry)
    have hlt : entry.1 < g.nonterminals := of_decide_eq_true hknown
    exact ⟨by omega, htarget.le⟩
  obtain rfl : conflicts = [] := by
    rw [stateRows_conflicts hrows, List.flatMap_eq_nil_iff]
    rintro ⟨info, q⟩ hmem
    rw [List.mk_mem_zipIdx_iff_getElem?, Array.getElem?_toList] at hmem
    exact h.conflictFree hmem
  obtain ⟨productions, hproductions⟩ : ∃ productions,
      g.rules.toList.mapM productionRow = .ok productions := by
    refine mapM_ok fun rule hrule => ?_
    have hrule : rule ∈ g.rules := by simpa using hrule
    have hleft := hg.left_lt rule hrule
    exact productionRow_ok (by omega) (hfits.2.2 rule hrule)
  refine ⟨⟨(rows.map Prod.fst).toArray, (rows.map Prod.snd).toArray, productions.toArray⟩, ?_⟩
  simp only [compile, h.valid, hrows, hproductions]
  rfl

end Outline.Holds

end Stencil
