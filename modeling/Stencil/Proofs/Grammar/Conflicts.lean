import Stencil.Proofs.Grammar.Stored
import Stencil.Proofs.Grammar.Outlined

namespace Stencil

open Grammar

namespace Action

-- Shifts come before reductions, and these by the number of their rule.
def Precedes : Action → Action → Prop
  | .shift _, .reduce _ => True
  | .reduce r, .reduce r' => r < r'
  | _, .shift _ => False

-- What an entry of the action table stands for.
def ofCode (v : Int16) : Option Action :=
  if 0 < v.toInt then some (.shift (v.toInt.toNat - 1))
  else if v.toInt < 0 then some (.reduce ((-v.toInt).toNat - 1))
  else none

theorem ofCode_eq_none {v : Int16} : ofCode v = none ↔ v = 0 := by
  rw [← Int16.toInt_inj, Int16.toInt_zero, ofCode]
  split
  · simp only [reduceCtorEq, false_iff]
    omega
  · split
    · simp only [reduceCtorEq, false_iff]
      omega
    · simp only [true_iff]
      omega

theorem ofCode_code {action : Action} (h : action.Fits) : ofCode action.code = some action := by
  cases action with
  | shift state =>
      rw [ofCode, toInt_code_shift h, if_pos (by omega)]
      simp
  | reduce production =>
      rw [ofCode, toInt_code_reduce h, if_neg (by omega), if_pos (by omega)]
      simp

end Action

namespace ActionRow

-- The row of a state and its conflicts, when the reductions `proposed` have been added to the
-- shifts in an order in which the rules for a terminal ascend: the first action of a terminal
-- stays, and every later one is discarded for it.
structure Settles (state : Nat) (proposed : List (Nat × Nat)) (acc : ActionRow × List Conflict) :
    Prop where
  taken : ∀ {r t : Nat}, (r, t) ∈ proposed → ∃ action, acc.1.lookup t = some action
  least : ∀ {r r' t : Nat}, acc.1.lookup t = some (.reduce r) → (r', t) ∈ proposed → r ≤ r'
  conflict_iff : ∀ c : Conflict, c ∈ acc.2 ↔ c.state = state ∧
    acc.1.lookup c.terminal = some c.kept ∧
    ∃ r, c.discarded = .reduce r ∧ (r, c.terminal) ∈ proposed ∧ c.discarded ≠ c.kept
  nodup : acc.2.Nodup

section

variable {state r t : Nat} {shifts : ActionRow} {proposed : List (Nat × Nat)}
  {acc : ActionRow × List Conflict}

-- A terminal that is free takes the reduction.
theorem Settles.free (h : Settles state proposed acc) (hlookup : acc.1.lookup t = none) :
    Settles state (proposed ++ [(r, t)]) (propose state r acc t) := by
  have hrow : ∀ u, (ActionRow.propose state r acc t).1.lookup u =
      if u = t then some (.reduce r) else acc.1.lookup u := by
    intro u
    rw [lookup_propose, hlookup]
    rfl
  have hsame : (ActionRow.propose state r acc t).2 = acc.2 := by
    simp only [ActionRow.propose, hlookup]
  have hfree : ∀ {r' : Nat}, (r', t) ∉ proposed := by
    intro r' hmem
    obtain ⟨action, haction⟩ := h.taken hmem
    rw [hlookup] at haction
    cases haction
  refine ⟨?_, ?_, ?_, by rw [hsame]; exact h.nodup⟩
  · intro r' u hmem
    rw [hrow]
    split
    · exact ⟨_, rfl⟩
    · rename_i hne
      refine h.taken ((List.mem_append.mp hmem).resolve_right ?_)
      simp [hne]
  · intro r₁ r' u hreduce hmem
    rw [hrow] at hreduce
    split at hreduce
    · rename_i heq
      subst heq
      cases hreduce
      rcases List.mem_append.mp hmem with hmem | hmem
      · exact absurd hmem hfree
      · cases List.mem_singleton.mp hmem
        exact Nat.le_refl r
    · rename_i hne
      refine h.least hreduce ((List.mem_append.mp hmem).resolve_right ?_)
      simp [hne]
  · intro c
    rw [hsame, h.conflict_iff, hrow]
    by_cases heq : c.terminal = t
    · rw [if_pos heq, heq, hlookup]
      constructor
      · rintro ⟨-, hnone, -⟩
        cases hnone
      · rintro ⟨-, hkept, r', hdiscarded, hmem, hne⟩
        rcases List.mem_append.mp hmem with hmem | hmem
        · exact absurd hmem hfree
        · cases List.mem_singleton.mp hmem
          exact absurd (hdiscarded.trans (Option.some_inj.mp hkept)) hne
    · simp [heq]

-- One that has an action keeps it.
theorem Settles.opposed (h : Settles state proposed acc) (hholds : Holds shifts proposed acc)
    (hlater : ∀ {r' : Nat}, (r', t) ∈ proposed → r' < r) {existing : Action}
    (hlookup : acc.1.lookup t = some existing) :
    Settles state (proposed ++ [(r, t)]) (propose state r acc t) := by
  have hresolve : existing.resolve r = (existing, .reduce r) := by
    cases existing with
    | shift target => rfl
    | reduce other => exact if_pos (Nat.le_of_lt (hlater (hholds.reduce_mem hlookup)))
  have hne : .reduce r ≠ existing := by
    rintro rfl
    exact Nat.lt_irrefl r (hlater (hholds.reduce_mem hlookup))
  have hrow : ∀ u, (ActionRow.propose state r acc t).1.lookup u = acc.1.lookup u := by
    intro u
    rw [lookup_propose, hlookup]
    split
    · rename_i heq
      rw [heq, hlookup, settled, hresolve]
    · rfl
  have hmore : (ActionRow.propose state r acc t).2 =
      acc.2 ++ [⟨state, t, existing, .reduce r⟩] := by
    simp only [ActionRow.propose, hlookup, hresolve]
  have hnew : (r, t) ∉ proposed := fun hmem => Nat.lt_irrefl r (hlater hmem)
  refine ⟨?_, ?_, ?_, ?_⟩
  · intro r' u hmem
    rw [hrow]
    rcases List.mem_append.mp hmem with hmem | hmem
    · exact h.taken hmem
    · cases List.mem_singleton.mp hmem
      exact ⟨existing, hlookup⟩
  · intro r₁ r' u hreduce hmem
    rw [hrow] at hreduce
    rcases List.mem_append.mp hmem with hmem | hmem
    · exact h.least hreduce hmem
    · cases List.mem_singleton.mp hmem
      exact Nat.le_of_lt (hlater (hholds.reduce_mem hreduce))
  · intro c
    rw [hmore, List.mem_append, h.conflict_iff, hrow, List.mem_singleton]
    constructor
    · rintro (⟨hstate, hkept, r', hdiscarded, hmem, hother⟩ | rfl)
      · exact ⟨hstate, hkept, r', hdiscarded, List.mem_append_left _ hmem, hother⟩
      · exact ⟨rfl, hlookup, r, rfl, by simp, hne⟩
    · rintro ⟨hstate, hkept, r', hdiscarded, hmem, hother⟩
      rcases List.mem_append.mp hmem with hmem | hmem
      · exact .inl ⟨hstate, hkept, r', hdiscarded, hmem, hother⟩
      · obtain ⟨rfl, hterminal⟩ := Prod.mk.inj (List.mem_singleton.mp hmem)
        rw [hterminal, hlookup] at hkept
        obtain ⟨cstate, cterminal, ckept, cdiscarded⟩ := c
        simp only at hstate hterminal hkept hdiscarded
        cases hkept
        exact .inr (by rw [hstate, hterminal, hdiscarded])
  · rw [hmore, List.nodup_append]
    refine ⟨h.nodup, List.nodup_singleton _, ?_⟩
    rintro c hc _ hmem rfl
    obtain rfl := List.mem_singleton.mp hmem
    obtain ⟨-, -, r', hdiscarded, hold, -⟩ := (h.conflict_iff _).mp hc
    cases hdiscarded
    exact hnew hold

theorem Settles.foldl (h : Settles state proposed acc) (hholds : Holds shifts proposed acc)
    (more : List (Nat × Nat))
    (hascending : (proposed ++ more).Pairwise fun p p' => p.2 = p'.2 → p.1 < p'.1) :
    Settles state (proposed ++ more)
      (more.foldl (fun acc p => propose state p.1 acc p.2) acc) := by
  induction more generalizing proposed acc with
  | nil => simpa using h
  | cons p rest ih =>
      obtain ⟨r, t⟩ := p
      have hlater : ∀ {r' : Nat}, (r', t) ∈ proposed → r' < r := by
        intro r' hmem
        have hcross := (List.pairwise_append.mp hascending).2.2
        exact hcross (r', t) hmem (r, t) (by simp) rfl
      have hstep : Settles state (proposed ++ [(r, t)]) (propose state r acc t) := by
        cases hlookup : acc.1.lookup t with
        | none => exact h.free hlookup
        | some existing => exact h.opposed hholds hlater hlookup
      rw [List.append_cons] at hascending ⊢
      exact ih hstep (hholds.propose state r t) hascending

end

end ActionRow

namespace Grammar

variable {g : Grammar}

-- The state entered from `q` over a symbol: the one whose kernel the items of `q` that read the
-- symbol reach over it.
def Successor (g : Grammar) (q : Nat) (symbol : Symbol) (target : Nat) : Prop :=
  (∃ i ∈ g.itemsAt q, g.nextSymbol? i = some symbol) ∧
    g.automaton.kernels[target]? = some (g.successor (g.itemsAt q) symbol)

theorem edge_iff_successor (hg : g.Valid) {q target : Nat} {symbol : Symbol} :
    g.Edge q symbol target ↔ g.Successor q symbol target := by
  have htarget : ∀ {target}, g.Edge q symbol target →
      g.automaton.kernels[target]? = some (g.successor (g.itemsAt q) symbol) := by
    rintro target ⟨info, hinfo, hedge⟩
    exact (describes_of_info hg hinfo).2.2 _ hedge
  constructor
  · exact fun hedge => ⟨exists_item_of_edge hg hedge, htarget hedge⟩
  · rintro ⟨⟨i, hi, hnext⟩, hkernel⟩
    obtain ⟨target', hedge⟩ := exists_edge hg hi hnext
    -- Kernels are met once.
    have hsame : target' = target := by
      have hnodup := (automaton_explored hg).nodup
      have hlt := (Array.getElem?_eq_some_iff.mp hkernel).1
      refine (List.getElem?_inj (by simpa using (Array.getElem?_eq_some_iff.mp (htarget hedge)).1)
        hnodup).mp ?_
      simp only [Array.getElem?_toList]
      rw [htarget hedge, hkernel]
    exact hsame ▸ hedge

-- What can be done in a state with a terminal: the terminal is read, or a rule is applied that is
-- complete there and whose left side it can follow.
def Candidate (g : Grammar) (q t : Nat) : Action → Prop
  | .shift target => g.Successor q (.terminal t) target
  | .reduce r => ∃ rule, g.rules[r]? = some rule ∧
      (⟨r, rule.right.length⟩ : Item) ∈ g.itemsAt q ∧ t ∈ g.followOf rule.left

-- What is done: the shift, or else the reduction by the rule with the lowest number.
def Wins (g : Grammar) (q t : Nat) (action : Action) : Prop :=
  g.Candidate q t action ∧ ∀ other, g.Candidate q t other → other ≠ action → action.Precedes other

theorem reductionsOf_ascending (hg : g.Valid) {q : Nat} {info : StateInfo}
    (h : g.automaton.infos[q]? = some info) :
    (ActionRow.reductionsOf g (g.followSets g.firstSets) info).Pairwise
      fun p p' => p.2 = p'.2 → p.1 < p'.1 := by
  rw [ActionRow.reductionsOf, List.pairwise_flatMap, (describes_of_info hg h).1]
  constructor
  · intro r hr
    rw [List.pairwise_map]
    exact (followOf_nodup hg _).imp fun hne heq => absurd heq hne
  · refine (g.completed_ascending _).imp fun {r r'} hlt => ?_
    rintro p hp p' hp' -
    obtain ⟨t, -, rfl⟩ := List.mem_map.mp hp
    obtain ⟨t', -, rfl⟩ := List.mem_map.mp hp'
    exact hlt

theorem ofState_settles (hg : g.Valid) {q : Nat} {info : StateInfo}
    (h : g.automaton.infos[q]? = some info) :
    ActionRow.Settles q (ActionRow.reductionsOf g (g.followSets g.firstSets) info)
      (ActionRow.ofState g (g.followSets g.firstSets) q info) := by
  rw [ActionRow.ofState_eq]
  have hshifts : ActionRow.Settles q [] (ActionRow.shiftsOf info, []) :=
    ⟨by simp, by simp, by simp, List.nodup_nil⟩
  simpa using hshifts.foldl (shiftsOf_holds hg h) _ (by simpa using reductionsOf_ascending hg h)

theorem candidate_shift (hg : g.Valid) {q t target : Nat} :
    g.Candidate q t (.shift target) ↔ g.actionOn q t = some (.shift target) := by
  rw [actionOn_eq_shift hg, edge_iff_successor hg]
  rfl

theorem candidate_reduce (hg : g.Valid) {q t r : Nat} :
    g.Candidate q t (.reduce r) ↔ ∃ info, g.automaton.infos[q]? = some info ∧
      (r, t) ∈ ActionRow.reductionsOf g (g.followSets g.firstSets) info := by
  constructor
  · intro h
    obtain ⟨rule, hrule, hitem, ht⟩ := h
    obtain ⟨info, hinfo⟩ := exists_info hg hitem
    exact ⟨info, hinfo, (mem_reductionsOf hg hinfo).mpr ⟨rule, hrule, hitem, ht⟩⟩
  · rintro ⟨info, hinfo, hmem⟩
    exact (mem_reductionsOf hg hinfo).mp hmem

-- Where anything can be done, something is.
theorem exists_actionOn (hg : g.Valid) {q t : Nat} {action : Action}
    (h : g.Candidate q t action) : ∃ kept, g.actionOn q t = some kept := by
  cases action with
  | shift target => exact ⟨_, (candidate_shift hg).mp h⟩
  | reduce r =>
      obtain ⟨info, hinfo, hmem⟩ := (candidate_reduce hg).mp h
      simp only [actionOn, hinfo]
      exact (ofState_settles hg hinfo).taken hmem

theorem actionOn_eq_some (hg : g.Valid) {q t : Nat} {action : Action} :
    g.actionOn q t = some action ↔ g.Wins q t action := by
  have hwins : ∀ {kept}, g.actionOn q t = some kept → g.Wins q t kept := by
    intro kept hkept
    cases kept with
    | shift target =>
        refine ⟨(candidate_shift hg).mpr hkept, fun other hother hne => ?_⟩
        cases other with
        | shift target' =>
            rw [(candidate_shift hg).mp hother] at hkept
            exact absurd (Option.some_inj.mp hkept) hne
        | reduce r => trivial
    | reduce r =>
        refine ⟨completed_of_reduce hg hkept, fun other hother hne => ?_⟩
        cases other with
        | shift target =>
            rw [(candidate_shift hg).mp hother] at hkept
            cases hkept
        | reduce r' =>
            obtain ⟨info, hinfo, hmem⟩ := (candidate_reduce hg).mp hother
            simp only [actionOn, hinfo] at hkept
            have hle := (ofState_settles hg hinfo).least hkept hmem
            refine Nat.lt_of_le_of_ne hle ?_
            rintro rfl
            exact hne rfl
  refine ⟨hwins, fun h => ?_⟩
  obtain ⟨kept, hkept⟩ := exists_actionOn hg h.1
  by_cases heq : kept = action
  · exact heq ▸ hkept
  · -- Each of two winners would come before the other.
    have hbefore := (hwins hkept).2 action h.1 (Ne.symm heq)
    have hafter := h.2 kept (hwins hkept).1 heq
    cases kept <;> cases action <;> simp only [Action.Precedes] at hbefore hafter
    omega

-- Every candidate that does not win is discarded once, for the one that does.
theorem mem_conflicts (hg : g.Valid) {q : Nat} {info : StateInfo}
    (h : g.automaton.infos[q]? = some info) (c : Conflict) :
    c ∈ (ActionRow.ofState g (g.followSets g.firstSets) q info).2 ↔ c.state = q ∧
      g.Wins q c.terminal c.kept ∧ g.Candidate q c.terminal c.discarded ∧
      c.discarded ≠ c.kept := by
  have haction : g.actionOn q c.terminal =
      (ActionRow.ofState g (g.followSets g.firstSets) q info).1.lookup c.terminal := by
    simp only [actionOn, h]
  rw [(ofState_settles hg h).conflict_iff, ← haction, actionOn_eq_some hg]
  refine and_congr_right fun _ => and_congr_right fun hwins => ?_
  constructor
  · rintro ⟨r, hdiscarded, hmem, hne⟩
    rw [hdiscarded]
    exact ⟨(candidate_reduce hg).mpr ⟨info, h, hmem⟩, hdiscarded ▸ hne⟩
  · rintro ⟨hcandidate, hne⟩
    cases hdiscarded : c.discarded with
    | shift target =>
        -- A shift is never discarded.
        rw [hdiscarded] at hcandidate hne
        have hkept := (actionOn_eq_some hg).mpr hwins
        rw [(candidate_shift hg).mp hcandidate] at hkept
        exact absurd (Option.some_inj.mp hkept) hne
    | reduce r =>
        rw [hdiscarded] at hcandidate hne
        obtain ⟨info', hinfo', hmem⟩ := (candidate_reduce hg).mp hcandidate
        rw [h] at hinfo'
        cases hinfo'
        exact ⟨r, rfl, hmem, hne⟩

variable {tables : Tables} {conflicts : List Conflict}

theorem conflicts_of_compile (h : g.compile = .ok (tables, conflicts)) :
    conflicts = g.automaton.infos.toList.zipIdx.flatMap fun entry =>
      (ActionRow.ofState g (g.followSets g.firstSets) entry.2 entry.1).2 := by
  obtain ⟨-, -, h⟩ := bind_eq_ok.mp h
  obtain ⟨⟨rows, conflicts'⟩, hrows, h⟩ := bind_eq_ok.mp h
  obtain ⟨productions, -, h⟩ := bind_eq_ok.mp h
  cases h
  exact stateRows_conflicts hrows

theorem mem_conflicts_of_compile (h : g.compile = .ok (tables, conflicts)) (c : Conflict) :
    c ∈ conflicts ↔ g.Wins c.state c.terminal c.kept ∧
      g.Candidate c.state c.terminal c.discarded ∧ c.discarded ≠ c.kept := by
  have hg := valid_of_compile h
  rw [conflicts_of_compile h, List.mem_flatMap]
  constructor
  · rintro ⟨⟨info, q⟩, hentry, hmem⟩
    rw [List.mk_mem_zipIdx_iff_getElem?, Array.getElem?_toList] at hentry
    obtain ⟨rfl, hrest⟩ := (mem_conflicts hg hentry c).mp hmem
    exact hrest
  · intro hrest
    obtain ⟨info, hinfo⟩ : ∃ info, g.automaton.infos[c.state]? = some info := by
      have hkept := (actionOn_eq_some hg).mpr hrest.1
      simp only [actionOn] at hkept
      split at hkept
      · rename_i info hinfo
        exact ⟨info, hinfo⟩
      · cases hkept
    refine ⟨(info, c.state), ?_, (mem_conflicts hg hinfo c).mpr ⟨rfl, hrest⟩⟩
    rw [List.mk_mem_zipIdx_iff_getElem?, Array.getElem?_toList]
    exact hinfo

theorem conflicts_nodup (h : g.compile = .ok (tables, conflicts)) : conflicts.Nodup := by
  have hg := valid_of_compile h
  rw [conflicts_of_compile h, List.nodup_flatMap]
  constructor
  · rintro ⟨info, q⟩ hentry
    rw [List.mk_mem_zipIdx_iff_getElem?, Array.getElem?_toList] at hentry
    exact (ofState_settles hg hentry).nodup
  · -- Conflicts of different states differ in their state.
    rw [List.pairwise_iff_getElem]
    intro i j hi hj hlt c hc hc'
    simp only [List.getElem_zipIdx, Nat.zero_add] at hc hc'
    rw [List.length_zipIdx] at hi hj
    have hinfo : g.automaton.infos[i]? = some g.automaton.infos.toList[i] := by
      rw [← Array.getElem?_toList, List.getElem?_eq_getElem hi]
    have hinfo' : g.automaton.infos[j]? = some g.automaton.infos.toList[j] := by
      rw [← Array.getElem?_toList, List.getElem?_eq_getElem hj]
    have hstate := ((mem_conflicts hg hinfo c).mp hc).1
    have hstate' := ((mem_conflicts hg hinfo' c).mp hc').1
    omega

-- Every number in the tables has sixteen bits: terminals with the action that wins for them, where
-- a number more than that of the state or rule is stored, non-terminals with the states they lead
-- to, and the left sides and lengths of rules.
structure FitsRows (g : Grammar) : Prop where
  action : ∀ {q t : Nat} {action : Action}, g.Wins q t action → t ≤ limit ∧ action.Fits
  goto : ∀ {q n target : Nat}, g.Successor q (.nonterminal n) target → n ≤ limit ∧ target ≤ limit
  rule : ∀ rule ∈ g.rules, rule.left ≤ limit ∧ rule.right.length ≤ limit

theorem wins_of_mem (hg : g.Valid) {q : Nat} {info : StateInfo}
    (h : g.automaton.infos[q]? = some info) {entry : Nat × Action} :
    entry ∈ (ActionRow.ofState g (g.followSets g.firstSets) q info).1 ↔
      g.Wins q entry.1 entry.2 := by
  rw [← actionOn_eq_some hg, ← lookup_eq_some_of_ascending (ofState_holds hg h).ascending]
  simp only [actionOn, h]

theorem exists_info_of_wins (hg : g.Valid) {q t : Nat} {action : Action}
    (h : g.Wins q t action) : ∃ info, g.automaton.infos[q]? = some info := by
  have hkept := (actionOn_eq_some hg).mpr h
  simp only [actionOn] at hkept
  split at hkept
  · rename_i info hinfo
    exact ⟨info, hinfo⟩
  · cases hkept

theorem successor_of_mem (hg : g.Valid) {q : Nat} {info : StateInfo}
    (h : g.automaton.infos[q]? = some info) {entry : Nat × Nat} :
    entry ∈ gotosOf info ↔ g.Successor q (.nonterminal entry.1) entry.2 := by
  rw [← edge_iff_successor hg, ← gotoOn_eq_some hg,
    ← lookup_eq_some_of_ascending (gotosOf_ascending hg h)]
  simp only [gotoOn, h]

theorem fitsRows_of_compile (h : g.compile = .ok (tables, conflicts)) : g.FitsRows := by
  have hg := valid_of_compile h
  obtain ⟨hrows, -⟩ := rows_of_compile h
  refine ⟨?_, ?_, ?_⟩
  · intro q t action hwins
    obtain ⟨info, hinfo⟩ := exists_info_of_wins hg hwins
    obtain ⟨actions, -, -, -, hactions, -⟩ := hrows hinfo
    have hmem := (@wins_of_mem g hg q info hinfo (t, action)).mpr hwins
    obtain ⟨hencodes, hfits⟩ := actionPairs_encodes hactions
    exact ⟨hencodes.key_le hmem, hfits _ hmem⟩
  · intro q n target hsuccessor
    obtain ⟨info, hinfo, -⟩ := (edge_iff_successor hg).mpr hsuccessor
    obtain ⟨-, gotos, -, -, -, hgotos, -⟩ := hrows hinfo
    have hmem := (@successor_of_mem g hg q info hinfo (n, target)).mpr hsuccessor
    obtain ⟨hencodes, hfits⟩ := gotoPairs_encodes hgotos
    exact ⟨hencodes.key_le hmem, hfits _ hmem⟩
  · obtain ⟨-, -, h⟩ := bind_eq_ok.mp h
    obtain ⟨⟨rows, conflicts'⟩, -, h⟩ := bind_eq_ok.mp h
    obtain ⟨productions, hproductions, -⟩ := bind_eq_ok.mp h
    intro rule hrule
    obtain ⟨i, hi, rfl⟩ := List.getElem_of_mem (Array.mem_toList_iff.mpr hrule)
    have hencoded := forall₂_of_mapM hproductions
    have hrow := hencoded.get hi (hencoded.length_eq ▸ hi)
    obtain ⟨left, hleft, hrow⟩ := bind_eq_ok.mp hrow
    obtain ⟨length, hlength, -⟩ := bind_eq_ok.mp hrow
    exact ⟨(encodeNat_eq_ok hleft).1, (encodeNat_eq_ok hlength).1⟩

theorem compile_of_fitsRows (hvalid : g.validate = .ok ()) (h : g.FitsRows) :
    ∃ tables conflicts, g.compile = .ok (tables, conflicts) := by
  have hg := valid_of_validate hvalid
  obtain ⟨rows, conflicts, hrows⟩ : ∃ rows conflicts,
      g.stateRows (g.followSets g.firstSets) 0 g.automaton.infos.toList =
        .ok (rows, conflicts) := by
    refine stateRows_ok fun {q info} hinfo => ?_
    rw [Array.getElem?_toList] at hinfo
    rw [Nat.zero_add]
    exact ⟨actionPairs_ok fun entry hentry => h.action ((wins_of_mem hg hinfo).mp hentry),
      gotoPairs_ok fun entry hentry => h.goto ((successor_of_mem hg hinfo).mp hentry)⟩
  obtain ⟨productions, hproductions⟩ : ∃ productions,
      g.rules.toList.mapM productionRow = .ok productions := by
    refine mapM_ok fun rule hrule => ?_
    obtain ⟨hleft, hright⟩ := h.rule rule (Array.mem_toList_iff.mp hrule)
    exact productionRow_ok hleft hright
  refine ⟨⟨(rows.map Prod.fst).toArray, (rows.map Prod.snd).toArray, productions.toArray⟩,
    conflicts, ?_⟩
  simp only [compile, hvalid, hrows, hproductions]
  rfl

-- Nothing goes wrong but that a number is too large.
def OnlyTooLarge (x : Except GrammarError α) : Prop := ∀ e, x = .error e → e = .tooLarge limit

theorem OnlyTooLarge.pure (a : α) : OnlyTooLarge (.ok a) := by
  rintro e ⟨⟩

theorem OnlyTooLarge.bind {x : Except GrammarError α} {f : α → Except GrammarError β}
    (hx : OnlyTooLarge x) (hf : ∀ a, OnlyTooLarge (f a)) : OnlyTooLarge (x >>= f) := by
  intro e h
  cases x with
  | error e' =>
      cases h
      exact hx _ rfl
  | ok a => exact hf a e h

theorem OnlyTooLarge.map {x : Except GrammarError α} (hx : OnlyTooLarge x) (f : α → β) :
    OnlyTooLarge (x.map f) := by
  intro e h
  cases x with
  | error e' =>
      cases h
      exact hx _ rfl
  | ok a => cases h

theorem OnlyTooLarge.mapM {f : α → Except GrammarError β} (hf : ∀ a, OnlyTooLarge (f a))
    (xs : List α) : OnlyTooLarge (xs.mapM f) := by
  induction xs with
  | nil => exact .pure []
  | cons x xs ih =>
      rw [List.mapM_cons]
      exact .bind (hf x) fun y => .bind ih fun ys => .pure (y :: ys)

theorem onlyTooLarge_encodeNat (n : Nat) : OnlyTooLarge (encodeNat n) := by
  intro e h
  simp only [encodeNat] at h
  split at h
  · cases h
  · cases h
    rfl

theorem onlyTooLarge_encodeAction (action : Action) : OnlyTooLarge (encodeAction action) := by
  cases action with
  | shift state => exact onlyTooLarge_encodeNat _
  | reduce production => exact .map (onlyTooLarge_encodeNat _) _

theorem onlyTooLarge_stateRows (follow : FollowSets) (state : Nat) (infos : List StateInfo) :
    OnlyTooLarge (g.stateRows follow state infos) := by
  induction infos generalizing state with
  | nil => exact .pure _
  | cons info rest ih =>
      rw [stateRows]
      refine .bind (.mapM (fun entry => ?_) _) fun actions => ?_
      · exact .bind (onlyTooLarge_encodeAction _) fun _ =>
          .bind (onlyTooLarge_encodeNat _) fun _ => .pure _
      · refine .bind (.mapM (fun entry => ?_) _) fun gotos => ?_
        · exact .bind (onlyTooLarge_encodeNat _) fun _ =>
            .bind (onlyTooLarge_encodeNat _) fun _ => .pure _
        · exact .bind (ih _) fun _ => .pure _

theorem onlyTooLarge_compile (hvalid : g.validate = .ok ()) : OnlyTooLarge g.compile := by
  rw [compile, hvalid]
  refine .bind (.pure ()) fun _ => .bind (onlyTooLarge_stateRows _ _ _) fun rows => ?_
  refine .bind (.mapM (fun rule => ?_) _) fun productions => .pure _
  exact .bind (onlyTooLarge_encodeNat _) fun _ => .bind (onlyTooLarge_encodeNat _) fun _ => .pure _

-- The tables say what wins in every state for every terminal, as a shift or as a reduction, and
-- nothing where nothing can be done; they lead over a non-terminal to its successor, if there is
-- one. Every candidate that does not win is reported once, discarded for the one that does, and
-- nothing else is reported. A valid grammar has tables if all numbers in them have sixteen bits,
-- and is refused as too large otherwise.
theorem conflicts_settled (g : Grammar) :
    (∀ tables conflicts, g.compile = .ok (tables, conflicts) →
      (∀ q t, (∀ action, Action.ofCode (tables.actionAt q t) = some action ↔ g.Wins q t action) ∧
        (tables.actionAt q t = 0 ↔ ∀ action, ¬ g.Candidate q t action)) ∧
      (∀ q n, (∀ target, g.Successor q (.nonterminal n) target →
          (tables.gotoAt q n).toInt = target) ∧
        ((∀ target, ¬ g.Successor q (.nonterminal n) target) → tables.gotoAt q n = -1)) ∧
      conflicts.Nodup ∧
      ∀ c : Conflict, c ∈ conflicts ↔ g.Wins c.state c.terminal c.kept ∧
        g.Candidate c.state c.terminal c.discarded ∧ c.discarded ≠ c.kept) ∧
    (g.validate = .ok () →
      (g.FitsRows → ∃ tables conflicts, g.compile = .ok (tables, conflicts)) ∧
        (¬ g.FitsRows → g.compile = .error (.tooLarge limit))) := by
  refine ⟨?_, fun hvalid => ⟨compile_of_fitsRows hvalid, fun hlarge => ?_⟩⟩
  · intro tables conflicts h
    have hg := valid_of_compile h
    have hserves := serves_of_compile h
    have haction : ∀ q t, Action.ofCode (tables.actionAt q t) = g.actionOn q t := by
      intro q t
      rw [hserves.actionAt]
      cases hkept : g.actionOn q t with
      | none => exact Action.ofCode_eq_none.mpr rfl
      | some action => exact Action.ofCode_code (hserves.fits hkept)
    refine ⟨fun q t => ⟨fun action => ?_, ?_⟩,
      fun q n => ⟨fun target htarget => ?_, fun hnone => ?_⟩, conflicts_nodup h,
      mem_conflicts_of_compile h⟩
    · rw [haction, actionOn_eq_some hg]
    · rw [← Action.ofCode_eq_none, haction]
      constructor
      · intro hnone action hcandidate
        obtain ⟨kept, hkept⟩ := exists_actionOn hg hcandidate
        rw [hnone] at hkept
        cases hkept
      · intro hnone
        cases hkept : g.actionOn q t with
        | none => rfl
        | some action => exact absurd ((actionOn_eq_some hg).mp hkept).1 (hnone action)
    · have hgoto := (gotoOn_eq_some hg).mpr ((edge_iff_successor hg).mpr htarget)
      rw [hserves.gotoAt, hgoto]
      exact toInt_ofInt_of_le (hserves.goto_le hgoto)
    · rw [hserves.gotoAt]
      cases hgoto : g.gotoOn q n with
      | none => rfl
      | some target =>
          exact absurd ((edge_iff_successor hg).mp ((gotoOn_eq_some hg).mp hgoto)) (hnone target)
  · cases hresult : g.compile with
    | error e => rw [onlyTooLarge_compile hvalid e hresult]
    | ok result => exact absurd (fitsRows_of_compile hresult) hlarge

-- Behind a sum of two the next plus is read, and the reduction that stands against it is reported.
theorem conflicts_settled_unorderedSums :
    ∃ tables, unorderedSums.compile =
        .ok (tables, [⟨4, 1, .shift 3, .reduce 1⟩]) ∧
      Action.ofCode (tables.actionAt 4 1) = some (.shift 3) ∧
      unorderedSums.Candidate 4 1 (.reduce 1) := by
  have hcompile : unorderedSums.compile.toOption.any
      (·.2 = [⟨4, 1, .shift 3, .reduce 1⟩]) = true := by
    decide +kernel
  obtain ⟨⟨tables, conflicts⟩, hsome, hconflicts⟩ := (Option.any_eq_true _ _).mp hcompile
  obtain rfl := of_decide_eq_true hconflicts
  have hok : unorderedSums.compile = .ok (tables, [⟨4, 1, .shift 3, .reduce 1⟩]) := by
    cases hresult : unorderedSums.compile with
    | error e => simp [hresult, Except.toOption] at hsome
    | ok result => simpa [hresult, Except.toOption] using hsome
  obtain ⟨haction, -, -, hconflict⟩ := (conflicts_settled unorderedSums).1 _ _ hok
  obtain ⟨hwins, hcandidate, -⟩ := (hconflict _).mp (List.mem_singleton.mpr rfl)
  exact ⟨tables, hok, ((haction 4 1).1 _).mpr hwins, hcandidate⟩

end Grammar

end Stencil
