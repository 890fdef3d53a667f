import Stencil.Grammar.Compile
import Stencil.Proofs.Grammar.FirstFollow

namespace Stencil

theorem lookup_cons_ite [DecidableEq α] (a b : α) (c : β) (rest : List (α × β)) :
    ((b, c) :: rest).lookup a = if a = b then some c else rest.lookup a := by
  rw [List.lookup_cons]
  by_cases h : a = b
  · simp [h]
  · rw [if_neg h, beq_false_of_ne h]

namespace ActionRow

theorem lookup_put (t u : Nat) (action : Action) (row : ActionRow) :
    (put t action row).lookup u = if u = t then some action else row.lookup u := by
  induction row with
  | nil => rw [put, lookup_cons_ite]
  | cons entry rest ih =>
      rcases entry with ⟨v, other⟩
      simp only [put]
      split
      · rw [lookup_cons_ite]
      · split
        · rename_i heq
          subst heq
          simp only [lookup_cons_ite]
          split <;> rfl
        · rename_i hlt hne
          simp only [lookup_cons_ite, ih]
          by_cases h : u = v
          · rw [if_pos h, if_neg (by omega), if_pos h]
          · simp only [if_neg h]

theorem mem_put {t : Nat} {action : Action} {row : ActionRow} {entry : Nat × Action}
    (h : entry ∈ put t action row) : entry.1 = t ∨ entry ∈ row := by
  induction row with
  | nil => simp_all [put]
  | cons first rest ih =>
      simp only [put] at h
      split at h
      · rcases List.mem_cons.mp h with rfl | h
        · exact .inl rfl
        · exact .inr h
      · split at h
        · rcases List.mem_cons.mp h with rfl | h
          · exact .inl rfl
          · exact .inr (by simp [h])
        · rcases List.mem_cons.mp h with rfl | h
          · exact .inr (by simp)
          · exact (ih h).imp_right (by simp +contextual)

theorem put_ascending {t : Nat} {action : Action} {row : ActionRow}
    (h : row.Pairwise (·.1 < ·.1)) : (put t action row).Pairwise (·.1 < ·.1) := by
  induction row with
  | nil => simp [put]
  | cons first rest ih =>
      obtain ⟨hfirst, hrest⟩ := List.pairwise_cons.mp h
      simp only [put]
      split
      · rename_i hlt
        refine List.pairwise_cons.mpr ⟨?_, h⟩
        intro entry hentry
        rcases List.mem_cons.mp hentry with rfl | hentry
        · exact hlt
        · exact Nat.lt_trans hlt (hfirst entry hentry)
      · split
        · rename_i heq
          exact List.pairwise_cons.mpr ⟨fun entry hentry => heq ▸ hfirst entry hentry, hrest⟩
        · rename_i hlt hne
          refine List.pairwise_cons.mpr ⟨?_, ih hrest⟩
          intro entry hentry
          rcases mem_put hentry with heq | hentry
          · rw [heq]
            omega
          · exact hfirst entry hentry

-- What a further reduction makes of the action of its terminal.
def settled (action : Option Action) (rule : Nat) : Action :=
  match action with
  | none => .reduce rule
  | some existing => (existing.resolve rule).1

theorem lookup_propose (state rule t u : Nat) (acc : ActionRow × List Conflict) :
    (propose state rule acc t).1.lookup u =
      if u = t then some (settled (acc.1.lookup t) rule) else acc.1.lookup u := by
  simp only [propose, settled]
  split <;> simp only [*, lookup_put]

-- The state of a row when the reductions `proposed`, each with its terminal, have been added to
-- the shifts.
structure Holds (shifts : ActionRow) (proposed : List (Nat × Nat))
    (acc : ActionRow × List Conflict) : Prop where
  ascending : acc.1.Pairwise (·.1 < ·.1)
  shift_iff : ∀ {t q : Nat},
    acc.1.lookup t = some (.shift q) ↔ shifts.lookup t = some (.shift q)
  reduce_mem : ∀ {t r : Nat}, acc.1.lookup t = some (.reduce r) → (r, t) ∈ proposed
  unopposed : acc.2 = [] → ∀ p ∈ proposed, acc.1.lookup p.2 = some (.reduce p.1)

private theorem settled_eq_shift {action : Option Action} {rule q : Nat} :
    settled action rule = .shift q ↔ action = some (.shift q) := by
  cases action with
  | none => simp [settled]
  | some existing =>
      cases existing with
      | shift state => simp [settled, Action.resolve]
      | reduce other =>
          simp only [settled, Action.resolve]
          split <;> simp

private theorem settled_eq_reduce {action : Option Action} {rule r : Nat}
    (h : settled action rule = .reduce r) : r = rule ∨ action = some (.reduce r) := by
  cases action with
  | none => simp_all [settled]
  | some existing =>
      cases existing with
      | shift state => simp [settled, Action.resolve] at h
      | reduce other =>
          simp only [settled, Action.resolve] at h
          split at h <;> simp_all

theorem Holds.propose {shifts : ActionRow} {proposed : List (Nat × Nat)}
    {acc : ActionRow × List Conflict} (h : Holds shifts proposed acc) (state rule t : Nat) :
    Holds shifts (proposed ++ [(rule, t)]) (propose state rule acc t) where
  ascending := by
    simp only [ActionRow.propose]
    split <;> exact put_ascending h.ascending
  shift_iff := by
    intro u q
    rw [lookup_propose]
    split
    · rename_i heq
      subst heq
      rw [Option.some_inj, settled_eq_shift, h.shift_iff]
    · exact h.shift_iff
  reduce_mem := by
    intro u r hlookup
    rw [lookup_propose] at hlookup
    split at hlookup
    · rename_i heq
      subst heq
      rcases settled_eq_reduce (Option.some_inj.mp hlookup) with rfl | hbefore
      · simp
      · simp [h.reduce_mem hbefore]
    · simp [h.reduce_mem hlookup]
  unopposed := by
    intro hnone p hp
    -- Without a conflict the terminal was free before.
    have hfree : acc.1.lookup t = none ∧ acc.2 = [] := by
      simp only [ActionRow.propose] at hnone
      split at hnone
      · rename_i hlookup
        exact ⟨hlookup, hnone⟩
      · simp at hnone
    rw [lookup_propose]
    rcases List.mem_append.mp hp with hp | hp
    · have hbefore := h.unopposed hfree.2 p hp
      have hne : p.2 ≠ t := by
        intro heq
        rw [heq, hfree.1] at hbefore
        cases hbefore
      rw [if_neg hne]
      exact hbefore
    · obtain rfl := List.mem_singleton.mp hp
      simp [hfree.1, settled]

theorem Holds.foldl {shifts : ActionRow} {proposed : List (Nat × Nat)}
    {acc : ActionRow × List Conflict} (h : Holds shifts proposed acc) (state : Nat)
    (more : List (Nat × Nat)) :
    Holds shifts (proposed ++ more)
      (more.foldl (fun acc p => ActionRow.propose state p.1 acc p.2) acc) := by
  induction more generalizing proposed acc with
  | nil => simpa using h
  | cons p rest ih => simpa using ih (h.propose state p.1 p.2)

-- The shifts of a state.
def shiftsOf (info : StateInfo) : ActionRow :=
  info.edges.filterMap fun (symbol, target) =>
    match symbol with
    | .terminal t => some (t, .shift target)
    | .nonterminal _ => none

-- The reductions of a state, each with its terminal.
def reductionsOf (g : Grammar) (follow : FollowSets) (info : StateInfo) : List (Nat × Nat) :=
  info.completed.flatMap fun rule =>
    (follow.getD (((g.rules[rule]?).map Rule.left).getD 0) []).map (rule, ·)

theorem ofState_eq (g : Grammar) (follow : FollowSets) (state : Nat) (info : StateInfo) :
    ofState g follow state info =
      (reductionsOf g follow info).foldl (fun acc p => propose state p.1 acc p.2)
        (shiftsOf info, []) := by
  simp only [reductionsOf, List.foldl_flatMap, List.foldl_map]
  rfl

theorem mem_shiftsOf {info : StateInfo} {t : Nat} {action : Action} :
    (t, action) ∈ shiftsOf info ↔ ∃ q, action = .shift q ∧ (.terminal t, q) ∈ info.edges := by
  simp only [shiftsOf, List.mem_filterMap]
  constructor
  · rintro ⟨⟨symbol, q⟩, hedge, hsome⟩
    cases symbol with
    | terminal u =>
        cases hsome
        exact ⟨q, rfl, hedge⟩
    | nonterminal n => cases hsome
  · rintro ⟨q, rfl, hedge⟩
    exact ⟨_, hedge, rfl⟩

end ActionRow

namespace Grammar

variable {g : Grammar}

-- The gotos of a state.
def gotosOf (info : StateInfo) : List (Nat × Nat) :=
  info.edges.filterMap fun (symbol, target) =>
    match symbol with
    | .terminal _ => none
    | .nonterminal n => some (n, target)

theorem mem_gotosOf {info : StateInfo} {n q : Nat} :
    (n, q) ∈ gotosOf info ↔ (.nonterminal n, q) ∈ info.edges := by
  simp only [gotosOf, List.mem_filterMap]
  constructor
  · rintro ⟨⟨symbol, target⟩, hedge, hsome⟩
    cases symbol with
    | terminal t => cases hsome
    | nonterminal m =>
        cases hsome
        exact hedge
  · intro hedge
    exact ⟨_, hedge, rfl⟩

theorem edges_ascending (hg : g.Valid) {q : Nat} {info : StateInfo}
    (h : g.automaton.infos[q]? = some info) :
    info.edges.Pairwise fun a b => a.1.before b.1 = true := by
  have hsymbols := (describes_of_info hg h).2.1
  rw [← List.pairwise_map (f := Prod.fst) (R := fun a b : Symbol => a.before b = true), hsymbols]
  exact Ascending.ofListBy_pairwise Symbol.before_trichotomous Symbol.before_trans _

theorem shiftsOf_ascending (hg : g.Valid) {q : Nat} {info : StateInfo}
    (h : g.automaton.infos[q]? = some info) :
    (ActionRow.shiftsOf info).Pairwise (·.1 < ·.1) := by
  refine List.Pairwise.filterMap _ ?_ (edges_ascending hg h)
  rintro ⟨symbol, target⟩ ⟨symbol', target'⟩ hbefore a ha b hb
  cases symbol <;> cases symbol' <;> cases ha <;> cases hb
  simpa [Symbol.before] using hbefore

theorem gotosOf_ascending (hg : g.Valid) {q : Nat} {info : StateInfo}
    (h : g.automaton.infos[q]? = some info) : (gotosOf info).Pairwise (·.1 < ·.1) := by
  refine List.Pairwise.filterMap _ ?_ (edges_ascending hg h)
  rintro ⟨symbol, target⟩ ⟨symbol', target'⟩ hbefore a ha b hb
  cases symbol <;> cases symbol' <;> cases ha <;> cases hb
  simpa [Symbol.before] using hbefore

-- In an ascending list every entry is found under its key.
theorem lookup_eq_some_of_ascending {β : Type} {entries : List (Nat × β)}
    (h : entries.Pairwise (·.1 < ·.1)) {a : Nat} {b : β} :
    entries.lookup a = some b ↔ (a, b) ∈ entries := by
  induction entries with
  | nil => simp
  | cons first rest ih =>
      rcases first with ⟨k, v⟩
      obtain ⟨hfirst, hrest⟩ := List.pairwise_cons.mp h
      rw [lookup_cons_ite]
      split
      · rename_i heq
        subst heq
        have hnot : (a, b) ∉ rest := fun hmem => Nat.lt_irrefl a (hfirst (a, b) hmem)
        simp [hnot, eq_comm]
      · rename_i hne
        simp [ih hrest, hne]

-- What a state does with a terminal.
def actionOn (g : Grammar) (q t : Nat) : Option Action :=
  match g.automaton.infos[q]? with
  | some info => (ActionRow.ofState g (g.followSets g.firstSets) q info).1.lookup t
  | none => none

-- Where a state goes over a non-terminal.
def gotoOn (g : Grammar) (q n : Nat) : Option Nat :=
  match g.automaton.infos[q]? with
  | some info => (gotosOf info).lookup n
  | none => none

theorem gotoOn_eq_some (hg : g.Valid) {q n target : Nat} :
    g.gotoOn q n = some target ↔ g.Edge q (.nonterminal n) target := by
  simp only [gotoOn, Edge]
  cases hinfo : g.automaton.infos[q]? with
  | none => simp
  | some info =>
      simp only [lookup_eq_some_of_ascending (gotosOf_ascending hg hinfo), mem_gotosOf]
      simp

theorem shiftsOf_holds (hg : g.Valid) {q : Nat} {info : StateInfo}
    (h : g.automaton.infos[q]? = some info) :
    ActionRow.Holds (ActionRow.shiftsOf info) [] (ActionRow.shiftsOf info, []) := by
  refine ⟨shiftsOf_ascending hg h, Iff.rfl, ?_, by simp⟩
  intro t r hlookup
  have hmem := (lookup_eq_some_of_ascending (shiftsOf_ascending hg h)).mp hlookup
  obtain ⟨q, hq, -⟩ := ActionRow.mem_shiftsOf.mp hmem
  cases hq

theorem ofState_holds (hg : g.Valid) {q : Nat} {info : StateInfo}
    (h : g.automaton.infos[q]? = some info) :
    ActionRow.Holds (ActionRow.shiftsOf info)
      (ActionRow.reductionsOf g (g.followSets g.firstSets) info)
      (ActionRow.ofState g (g.followSets g.firstSets) q info) := by
  rw [ActionRow.ofState_eq]
  simpa using (shiftsOf_holds hg h).foldl q
    (ActionRow.reductionsOf g (g.followSets g.firstSets) info)

theorem mem_reductionsOf (hg : g.Valid) {q : Nat} {info : StateInfo}
    (h : g.automaton.infos[q]? = some info) {r t : Nat} :
    (r, t) ∈ ActionRow.reductionsOf g (g.followSets g.firstSets) info ↔
      ∃ rule, g.rules[r]? = some rule ∧ (⟨r, rule.right.length⟩ : Item) ∈ g.itemsAt q ∧
        t ∈ g.followOf rule.left := by
  simp only [ActionRow.reductionsOf, List.mem_flatMap, List.mem_map, Prod.mk.injEq]
  rw [(describes_of_info hg h).1]
  constructor
  · rintro ⟨r', hr', t', ht', rfl, rfl⟩
    obtain ⟨rule, hrule, hitem⟩ := (mem_completed_itemsAt hg).mp hr'
    exact ⟨rule, hrule, hitem, by simpa [hrule, followOf] using ht'⟩
  · rintro ⟨rule, hrule, hitem, ht⟩
    refine ⟨r, (mem_completed_itemsAt hg).mpr ⟨rule, hrule, hitem⟩, t, ?_, rfl, rfl⟩
    simpa [hrule, followOf] using ht

-- Shifts always win.
theorem actionOn_eq_shift (hg : g.Valid) {q t target : Nat} :
    g.actionOn q t = some (.shift target) ↔ g.Edge q (.terminal t) target := by
  simp only [actionOn, Edge]
  cases hinfo : g.automaton.infos[q]? with
  | none => simp
  | some info =>
      simp only [(ofState_holds hg hinfo).shift_iff,
        lookup_eq_some_of_ascending (shiftsOf_ascending hg hinfo), ActionRow.mem_shiftsOf]
      simp

-- A reduction is made where its rule is complete and the terminal can follow.
theorem completed_of_reduce (hg : g.Valid) {q t r : Nat}
    (h : g.actionOn q t = some (.reduce r)) :
    ∃ rule, g.rules[r]? = some rule ∧ (⟨r, rule.right.length⟩ : Item) ∈ g.itemsAt q ∧
      t ∈ g.followOf rule.left := by
  simp only [actionOn] at h
  split at h
  · rename_i info hinfo
    exact (mem_reductionsOf hg hinfo).mp ((ofState_holds hg hinfo).reduce_mem h)
  · cases h

-- No state needs its conflicts settled.
def ConflictFree (g : Grammar) : Prop :=
  ∀ {q : Nat} {info : StateInfo}, g.automaton.infos[q]? = some info →
    (ActionRow.ofState g (g.followSets g.firstSets) q info).2 = []

theorem ConflictFree.actionOn_eq_reduce (h : g.ConflictFree) (hg : g.Valid) {q t r : Nat}
    {rule : Rule} (hrule : g.rules[r]? = some rule)
    (hitem : (⟨r, rule.right.length⟩ : Item) ∈ g.itemsAt q) (ht : t ∈ g.followOf rule.left) :
    g.actionOn q t = some (.reduce r) := by
  obtain ⟨info, hinfo⟩ := exists_info hg hitem
  simp only [actionOn, hinfo]
  exact (ofState_holds hg hinfo).unopposed (h hinfo) (r, t)
    ((mem_reductionsOf hg hinfo).mpr ⟨rule, hrule, hitem, ht⟩)

end Grammar

end Stencil
